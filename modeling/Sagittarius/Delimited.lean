/-
Lists of labels, flattened.

Two ways to flatten a list of labels into one list, and how each is taken
apart again:

* `terminated sep ls` ends every label with a separator
  (`splitOn_terminated` splits it back, `terminated_injective` says that
  separator-free labels are determined by their flattening);
* `lengthPrefixed len ls` starts every label with its length.

Everything is over an arbitrary element type.
-/
import Mathlib.Algebra.GroupWithZero.Nat
import Mathlib.Data.List.Basic
import Mathlib.Tactic.Common

namespace Delimited

variable {α : Type}

/-- Every label followed by the separator. -/
def terminated (sep : α) (ls : List (List α)) : List α := ls.flatMap (· ++ [sep])

@[simp] theorem terminated_nil (sep : α) : terminated sep [] = [] := rfl

@[simp] theorem terminated_cons (sep : α) (l : List α) (ls : List (List α)) :
    terminated sep (l :: ls) = l ++ sep :: terminated sep ls := by
  simp [terminated]

/-- A non-empty flattening ends with the separator. -/
theorem terminated_eq_concat (sep : α) : ∀ (ls : List (List α)) (l : List α),
    ∃ pre, terminated sep (l :: ls) = pre ++ [sep] := by
  intro ls
  induction ls with
  | nil =>
    intro l
    exact ⟨l, by simp⟩
  | cons l' ls ih =>
    intro l
    obtain ⟨pre, hpre⟩ := ih l'
    exact ⟨l ++ sep :: pre, by rw [terminated_cons, hpre]; simp⟩

section Split

variable [BEq α] [LawfulBEq α]

/-- Splitting at the separator gives the labels back, and one empty piece
after the last separator. -/
theorem splitOn_terminated {sep : α} : ∀ {ls : List (List α)}, (∀ l ∈ ls, sep ∉ l) →
    (terminated sep ls).splitOn sep = ls ++ [[]] := by
  intro ls
  induction ls with
  | nil =>
    intro _
    simp
  | cons l ls ih =>
    intro h
    rw [terminated_cons, List.splitOn_append_cons_self_of_not_mem (h l (by simp)),
      ih (fun l' hl' => h l' (by simp [hl']))]
    rfl

/-- Separator-free labels are determined by their flattening. -/
theorem terminated_injective {sep : α} {ls ls' : List (List α)} (h : ∀ l ∈ ls, sep ∉ l)
    (h' : ∀ l ∈ ls', sep ∉ l) (heq : terminated sep ls = terminated sep ls') : ls = ls' := by
  have := congrArg (List.splitOn sep) heq
  rw [splitOn_terminated h, splitOn_terminated h'] at this
  exact List.append_cancel_right this

/-- The pieces of a split, put back together with a separator after each but
the last. -/
theorem terminated_splitOn (sep : α) (xs : List α) :
    terminated sep (xs.splitOn sep) = xs ++ [sep] := by
  have h : List.intercalate [sep] (xs.splitOn sep) = xs := List.intercalate_splitOn sep
  generalize hls : xs.splitOn sep = ls at h
  have hne : ls ≠ [] := hls ▸ List.splitOn_ne_nil sep xs
  clear hls
  subst h
  induction ls with
  | nil => exact absurd rfl hne
  | cons l ls ih =>
    cases ls with
    | nil => simp [List.intercalate]
    | cons l' ls' =>
      rw [terminated_cons, ih (by simp)]
      simp [List.intercalate, List.intersperse]

/-- The pieces of a split hold no separator. -/
theorem not_mem_of_mem_splitOn {sep : α} : ∀ {xs l : List α}, l ∈ xs.splitOn sep → sep ∉ l := by
  intro xs
  induction xs with
  | nil =>
    intro l hl
    simp at hl
    simp [hl]
  | cons x xs ih =>
    intro l hl
    rw [List.splitOn_cons_eq_if_modifyHead] at hl
    split at hl
    · rcases List.mem_cons.mp hl with rfl | hl
      · simp
      · exact ih hl
    · rename_i hx
      cases hs : xs.splitOn sep with
      | nil => exact absurd hs (List.splitOn_ne_nil sep xs)
      | cons p ps =>
        rw [hs, List.modifyHead_cons] at hl
        rcases List.mem_cons.mp hl with rfl | hl
        · have hp : sep ∉ p := ih (by rw [hs]; exact List.mem_cons_self)
          have hne : sep ≠ x := fun he => hx (by simp [he])
          simp [hp, hne]
        · exact ih (by rw [hs]; exact List.mem_cons_of_mem _ hl)

end Split

/-! ### Length prefixes -/

/-- Every label preceded by its length. -/
def lengthPrefixed (len : Nat → α) (ls : List (List α)) : List α :=
  ls.flatMap (fun l => len l.length :: l)

@[simp] theorem lengthPrefixed_nil (len : Nat → α) : lengthPrefixed len [] = [] := rfl

@[simp] theorem lengthPrefixed_cons (len : Nat → α) (l : List α) (ls : List (List α)) :
    lengthPrefixed len (l :: ls) = len l.length :: (l ++ lengthPrefixed len ls) := by
  simp [lengthPrefixed]

/-- The number of elements a length-prefixed list of labels takes. -/
def prefixedLength (ls : List (List α)) : Nat := (ls.map (fun l => 1 + l.length)).sum

@[simp] theorem prefixedLength_nil : prefixedLength ([] : List (List α)) = 0 := rfl

@[simp] theorem prefixedLength_cons (l : List α) (ls : List (List α)) :
    prefixedLength (l :: ls) = 1 + l.length + prefixedLength ls := by
  simp [prefixedLength]

@[simp] theorem lengthPrefixed_length (len : Nat → α) (ls : List (List α)) :
    (lengthPrefixed len ls).length = prefixedLength ls := by
  induction ls with
  | nil => rfl
  | cons l ls ih =>
    simp only [lengthPrefixed_cons, List.length_cons, List.length_append, ih,
      prefixedLength_cons]
    omega

end Delimited

/-
Fields of a list: its longest runs without separators.

* `fields_append` — a field between separators is one of the fields;
* `exists_of_fields_eq` — each field stands somewhere, with the fields in front of it and
  behind it where they are in the list of fields;
* `mem_tail_fields_iff` — the fields behind the first one.
-/
import Mathlib.Data.List.Basic
import Mathlib.Tactic.Common

namespace Fields

variable {α : Type} {p : α → Bool}

/-- The non-empty pieces between separators. -/
def fields (p : α → Bool) (xs : List α) : List (List α) :=
  (xs.splitOnP p).filter (fun piece => !piece.isEmpty)

/-- `f` is a field, with this in front of it and that behind it. -/
structure IsField (p : α → Bool) (before f after : List α) : Prop where
  ne_nil : f ≠ []
  clean : ∀ c ∈ f, p c = false
  left : ∀ c, before.getLast? = some c → p c = true
  right : ∀ c, after.head? = some c → p c = true

@[simp] theorem fields_nil : fields p [] = [] := rfl

theorem fields_of_clean {f : List α} (hne : f ≠ []) (h : ∀ c ∈ f, p c = false) :
    fields p f = [f] := by
  rw [fields, List.splitOnP_eq_singleton h]
  simp [hne]

/-- A separator parts the fields. -/
theorem fields_append_cons (xs ys : List α) {sep : α} (hsep : p sep = true) :
    fields p (xs ++ sep :: ys) = fields p xs ++ fields p ys := by
  rw [fields, List.splitOnP_append_cons xs ys hsep, List.filter_append]
  rfl

/-- A list has no separator, or there is a first one. -/
theorem clean_or_exists (p : α → Bool) (xs : List α) : (∀ c ∈ xs, p c = false) ∨
    ∃ g sep ys, xs = g ++ sep :: ys ∧ (∀ c ∈ g, p c = false) ∧ p sep = true := by
  induction xs with
  | nil => exact .inl (by simp)
  | cons x xs ih =>
    cases hx : p x with
    | true => exact .inr ⟨[], x, xs, rfl, by simp, hx⟩
    | false =>
      obtain hclean | ⟨g, sep, ys, rfl, hg, hsep⟩ := ih
      · exact .inl (List.forall_mem_cons.mpr ⟨hx, hclean⟩)
      · exact .inr ⟨x :: g, sep, ys, rfl, List.forall_mem_cons.mpr ⟨hx, hg⟩, hsep⟩

/-- Induction from separator to separator. -/
theorem fields_induction {motive : List α → Prop}
    (clean : ∀ xs, (∀ c ∈ xs, p c = false) → motive xs)
    (split : ∀ g sep ys, (∀ c ∈ g, p c = false) → p sep = true → motive ys →
      motive (g ++ sep :: ys)) (xs : List α) : motive xs := by
  induction hlen : xs.length using Nat.strongRecOn generalizing xs with
  | _ n ih =>
    obtain hclean | ⟨g, sep, ys, rfl, hg, hsep⟩ := clean_or_exists p xs
    · exact clean xs hclean
    · refine split g sep ys hg hsep (ih ys.length ?_ ys rfl)
      rw [← hlen, List.length_append, List.length_cons]
      omega

/-- Only separators: no field. -/
theorem fields_eq_nil_iff {xs : List α} : fields p xs = [] ↔ ∀ c ∈ xs, p c = true := by
  have hclean : ∀ xs : List α, (∀ c ∈ xs, p c = false) →
      (fields p xs = [] ↔ ∀ c ∈ xs, p c = true) := by
    intro xs h
    rcases List.eq_nil_or_concat' xs with rfl | ⟨ys, c, rfl⟩
    · simp
    · rw [fields_of_clean (by simp) h]
      refine iff_of_false (List.cons_ne_nil _ _) ?_
      intro hall
      have hc : c ∈ ys ++ [c] := by simp
      exact Bool.false_ne_true ((h c hc).symm.trans (hall c hc))
  induction xs using fields_induction (p := p) with
  | clean xs h => exact hclean xs h
  | split g sep ys hg hsep ih =>
    have hparts : fields p (g ++ sep :: ys) = [] ↔
        (∀ c ∈ g, p c = true) ∧ ∀ c ∈ ys, p c = true := by
      rw [fields_append_cons g ys hsep, List.append_eq_nil_iff]
      exact and_congr (hclean g hg) ih
    rw [hparts, List.forall_mem_append, List.forall_mem_cons]
    exact ⟨fun h => ⟨h.1, hsep, h.2⟩, fun h => ⟨h.1, h.2.2⟩⟩

/-- A field between separators. -/
theorem fields_append {before f after : List α} (h : IsField p before f after) :
    fields p (before ++ (f ++ after)) = fields p before ++ f :: fields p after := by
  have hright : fields p (f ++ after) = f :: fields p after := by
    cases after with
    | nil => rw [List.append_nil, fields_of_clean h.ne_nil h.clean, fields_nil]
    | cons sep ys =>
      have hsep : p sep = true := h.right sep rfl
      rw [fields_append_cons f ys hsep, fields_of_clean h.ne_nil h.clean,
        ← List.nil_append (sep :: ys), fields_append_cons [] ys hsep]
      rfl
  rcases List.eq_nil_or_concat' before with rfl | ⟨xs, sep, rfl⟩
  · exact hright
  · have hsep : p sep = true := h.left sep (by simp)
    have hleft : fields p (xs ++ [sep]) = fields p xs := by
      rw [fields_append_cons xs [] hsep, fields_nil, List.append_nil]
    rw [List.append_assoc, List.singleton_append, fields_append_cons xs _ hsep, hright, hleft]

/-- **Each field stands somewhere** in the list. -/
theorem exists_of_fields_eq {xs f : List α} {fs gs : List (List α)}
    (h : fields p xs = fs ++ f :: gs) : ∃ before after,
      xs = before ++ (f ++ after) ∧ IsField p before f after ∧ fields p before = fs := by
  induction xs using fields_induction (p := p) generalizing fs with
  | clean xs hclean =>
    by_cases hne : xs = []
    · subst hne
      simp at h
    · rw [fields_of_clean hne hclean, eq_comm, List.append_eq_singleton_iff] at h
      obtain ⟨rfl, hf⟩ | ⟨-, hf⟩ := h
      · cases hf
        exact ⟨[], [], by simp, ⟨hne, hclean, nofun, nofun⟩, rfl⟩
      · cases hf
  | split g sep ys hg hsep ih =>
    rw [fields_append_cons g ys hsep] at h
    -- The field is the piece in front of the first separator, or one behind it.
    have hbehind : ∀ {fs'}, fields p ys = fs' ++ f :: gs → ∃ before after,
        g ++ sep :: ys = before ++ (f ++ after) ∧ IsField p before f after ∧
          fields p before = fields p g ++ fs' := by
      intro fs' hys
      obtain ⟨before, after, rfl, hfield, hbefore⟩ := ih hys
      refine ⟨g ++ sep :: before, after, by simp, ⟨hfield.ne_nil, hfield.clean, ?_, hfield.right⟩, ?_⟩
      · intro c hc
        rcases List.eq_nil_or_concat' before with rfl | ⟨xs, sep', rfl⟩
        · simp at hc
          rwa [← hc]
        · refine hfield.left c ?_
          rw [← List.cons_append, ← List.append_assoc, List.getLast?_append_of_ne_nil _ (by simp)] at hc
          rwa [List.getLast?_append_of_ne_nil _ (by simp)]
      · rw [fields_append_cons g before hsep, hbefore]
    by_cases hne : g = []
    · subst hne
      exact hbehind h
    · rw [fields_of_clean hne hg] at h hbehind
      rcases List.cons_eq_append_iff.mp h with ⟨rfl, hf⟩ | ⟨fs', rfl, hys⟩
      · cases hf
        refine ⟨[], sep :: ys, rfl, ⟨hne, hg, nofun, ?_⟩, rfl⟩
        intro c hc
        cases hc
        exact hsep
      · exact hbehind hys

/-- **The fields behind the first one** are those with something of a field in front. -/
theorem mem_tail_fields_iff {xs f : List α} : f ∈ (fields p xs).tail ↔
    ∃ before after, xs = before ++ (f ++ after) ∧ IsField p before f after ∧
      ∃ c ∈ before, p c = false := by
  have hfield : ∀ before : List α, fields p before ≠ [] ↔ ∃ c ∈ before, p c = false := by
    intro before
    rw [Ne, fields_eq_nil_iff]
    push Not
    simp only [Bool.not_eq_true]
  constructor
  · intro hf
    obtain ⟨fs, gs, hsplit⟩ := List.append_of_mem hf
    obtain ⟨first, rest, hfields⟩ := List.exists_cons_of_ne_nil (List.ne_nil_of_mem (List.mem_of_mem_tail hf))
    rw [hfields, List.tail_cons] at hsplit
    rw [hsplit, ← List.cons_append] at hfields
    obtain ⟨before, after, hxs, his, hbefore⟩ := exists_of_fields_eq hfields
    refine ⟨before, after, hxs, his, (hfield before).mp ?_⟩
    rw [hbefore]
    exact List.cons_ne_nil _ _
  · rintro ⟨before, after, rfl, his, hbefore⟩
    rw [fields_append his, List.tail_append_of_ne_nil ((hfield before).mpr hbefore)]
    exact List.mem_append_right _ List.mem_cons_self

end Fields

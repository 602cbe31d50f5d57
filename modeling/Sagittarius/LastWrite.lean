/-
The last of a list of records that says something.

Each record of a list writes some value or none; what was written last stays:

* `last_eq_some_iff`, `last_eq_none_iff` — the last value, and when there is none;
* `read_foldl`, `read_foldlM` — a state that each record overwrites holds the last value;
* `last_perm` — the order does not matter where at most one record writes.
-/
import Mathlib.Data.List.Perm.Basic
import Mathlib.Tactic.Common

namespace LastWrite

variable {σ ρ β : Type} {f : ρ → Option β} {rows rows' : List ρ} {v : β}

/-- The value that is written last. -/
def last (f : ρ → Option β) (rows : List ρ) : Option β := (rows.filterMap f).getLast?

theorem last_cons (r : ρ) (rows : List ρ) : last f (r :: rows) = (last f rows).or (f r) := by
  rw [last, last]
  cases hr : f r with
  | none => rw [List.filterMap_cons_none hr, Option.or_none]
  | some v =>
    rw [List.filterMap_cons_some hr, List.getLast?_cons]
    cases (rows.filterMap f).getLast? with
    | none => rfl
    | some w => rfl

theorem last_eq_none_iff : last f rows = none ↔ ∀ r ∈ rows, f r = none := by
  rw [last, List.getLast?_eq_none_iff, List.filterMap_eq_nil_iff]

/-- **The last value** is that of a record behind which none writes. -/
theorem last_eq_some_iff : last f rows = some v ↔
    ∃ before r after, rows = before ++ r :: after ∧ f r = some v ∧ ∀ r' ∈ after, f r' = none := by
  induction rows with
  | nil => simp [last]
  | cons r rows ih =>
    rw [last_cons, Option.or_eq_some_iff, ih, last_eq_none_iff]
    constructor
    · rintro (⟨before, r', after, rfl, hr', hafter⟩ | ⟨hafter, hr⟩)
      · exact ⟨r :: before, r', after, rfl, hr', hafter⟩
      · exact ⟨[], r, rows, rfl, hr, hafter⟩
    · rintro ⟨before, r', after, hrows, hr', hafter⟩
      rcases List.cons_eq_append_iff.mp hrows with ⟨rfl, hcons⟩ | ⟨before, rfl, hrest⟩
      · cases hcons
        exact .inr ⟨hafter, hr'⟩
      · exact .inl ⟨before, r', after, hrest, hr', hafter⟩

theorem exists_of_last (h : last f rows = some v) : ∃ r ∈ rows, f r = some v := by
  obtain ⟨before, r, after, rfl, hr, -⟩ := last_eq_some_iff.mp h
  exact ⟨r, by simp, hr⟩

theorem exists_last_iff : (∃ v, last f rows = some v) ↔ ∃ r ∈ rows, ∃ v, f r = some v := by
  constructor
  · rintro ⟨v, hv⟩
    obtain ⟨r, hr, hwrite⟩ := exists_of_last hv
    exact ⟨r, hr, v, hwrite⟩
  · rintro ⟨r, hr, v, hwrite⟩
    rw [← Option.isSome_iff_exists, ← Option.ne_none_iff_isSome, Ne, last_eq_none_iff]
    intro hnone
    rw [hnone r hr] at hwrite
    cases hwrite

/-! ### Overwriting -/

/-- A state holds what was written into it last. -/
theorem read_foldl {step : σ → ρ → σ} (read : σ → Option β)
    (h : ∀ s r, read (step s r) = (f r).or (read s)) (s : σ) :
    read (rows.foldl step s) = (last f rows).or (read s) := by
  induction rows generalizing s with
  | nil => rfl
  | cons r rows ih => rw [List.foldl_cons, ih, h, last_cons, Option.or_assoc]

/-- A state holds what was written into it last, if no step fails. -/
theorem read_foldlM {ε : Type} {step : σ → ρ → Except ε σ} (read : σ → Option β)
    (h : ∀ s s' r, step s r = .ok s' → read s' = (f r).or (read s)) {s s' : σ}
    (hrun : rows.foldlM step s = .ok s') : read s' = (last f rows).or (read s) := by
  induction rows generalizing s with
  | nil =>
    cases hrun
    rfl
  | cons r rows ih =>
    rw [List.foldlM_cons] at hrun
    cases hstep : step s r with
    | error e =>
      rw [hstep] at hrun
      cases hrun
    | ok s₁ =>
      rw [hstep] at hrun
      rw [ih hrun, h s s₁ r hstep, last_cons, Option.or_assoc]

/-! ### In another order -/

/-- The only record that writes decides, wherever it is. -/
theorem last_eq_some_iff_of_unique (h : rows.Pairwise (fun r r' => f r = none ∨ f r' = none)) :
    last f rows = some v ↔ ∃ r ∈ rows, f r = some v := by
  constructor
  · exact exists_of_last
  · rintro ⟨r, hr, hwrite⟩
    obtain ⟨before, after, rfl⟩ := List.append_of_mem hr
    refine last_eq_some_iff.mpr ⟨before, r, after, rfl, hwrite, ?_⟩
    intro r' hr'
    have hpair := (List.pairwise_cons.mp (List.pairwise_append.mp h).2.1).1 r' hr'
    rw [hwrite] at hpair
    obtain hnone | hnone := hpair
    · cases hnone
    · exact hnone

/-- **The order does not matter** where at most one record writes. -/
theorem last_perm (hperm : rows.Perm rows')
    (h : rows.Pairwise (fun r r' => f r = none ∨ f r' = none)) : last f rows = last f rows' := by
  have h' : rows'.Pairwise (fun r r' => f r = none ∨ f r' = none) :=
    hperm.pairwise h (fun {_ _} hor => hor.symm)
  refine Option.ext ?_
  intro v
  rw [last_eq_some_iff_of_unique h, last_eq_some_iff_of_unique h']
  simp only [hperm.mem_iff]

end LastWrite

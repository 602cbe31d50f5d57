/-
Maps that keep the best value of each key.

Values come with their keys one after the other, and one replaces what is under its key
when it is better:

* `Best.unique` — where the better of two values can always be told, the best one does not
  depend on the order they come in;
* `Kept.keep` — one more value;
* `kept_keepAll` — what is kept is best, and a key without a value had none.
-/
import Mathlib.Data.List.AList
import Mathlib.Data.List.Induction

namespace KeepBest

variable {κ ν : Type} {better : ν → ν → Bool} {es : List (κ × ν)} {k : κ} {v w : ν}

/-! ### The best value -/

/-- A value of a key that none of its values is better than. -/
def Best (better : ν → ν → Bool) (es : List (κ × ν)) (k : κ) (v : ν) : Prop :=
  (k, v) ∈ es ∧ ∀ w, (k, w) ∈ es → better w v = false

/-- There is one best value if the better of two can be told. -/
theorem Best.unique (h : Best better es k v) (h' : Best better es k w)
    (htotal : better v w = false → better w v = false → v = w) : v = w :=
  htotal (h'.2 v h.1) (h.2 w h'.1)

theorem mem_concat_iff {e : κ × ν} : (k, w) ∈ es ++ [e] ↔ (k, w) ∈ es ∨ (k, w) = e := by
  rw [List.mem_append, List.mem_singleton]

/-- The first value of a key is its best one. -/
theorem best_concat_of_none (hirrefl : ∀ v, better v v = false) (hnone : ∀ w, (k, w) ∉ es) :
    Best better (es ++ [(k, v)]) k v := by
  refine ⟨by simp, ?_⟩
  intro w hw
  obtain hw | hw := mem_concat_iff.mp hw
  · exact absurd hw (hnone w)
  · cases hw
    exact hirrefl v

/-- A better value than the best one. -/
theorem best_concat_of_better (hirrefl : ∀ v, better v v = false)
    (htrans : ∀ u v w, better u v = true → better v w = true → better u w = true)
    (h : Best better es k v) (hbetter : better w v = true) : Best better (es ++ [(k, w)]) k w := by
  refine ⟨by simp, ?_⟩
  intro u hu
  obtain hu | hu := mem_concat_iff.mp hu
  · by_contra huw
    have huv := htrans u w v (by simpa using huw) hbetter
    rw [h.2 u hu] at huv
    cases huv
  · cases hu
    exact hirrefl w

/-- A value that is no better than the best one. -/
theorem best_concat_of_not (h : Best better es k v) (hnot : better w v = false) :
    Best better (es ++ [(k, w)]) k v := by
  refine ⟨List.mem_append_left _ h.1, ?_⟩
  intro u hu
  obtain hu | hu := mem_concat_iff.mp hu
  · exact h.2 u hu
  · cases hu
    exact hnot

/-- A value of another key. -/
theorem best_concat_ne {e : κ × ν} (hk : k ≠ e.1) :
    Best better (es ++ [e]) k v ↔ Best better es k v := by
  have hother : ∀ w, (k, w) ∈ es ++ [e] ↔ (k, w) ∈ es := by
    intro w
    rw [mem_concat_iff, or_iff_left]
    rintro rfl
    exact hk rfl
  rw [Best, Best]
  simp only [hother]

/-! ### Keeping it -/

variable [DecidableEq κ]

/-- Keep a value unless there is one that it is no better than. -/
def keep (better : ν → ν → Bool) (m : AList (fun _ : κ => ν)) (e : κ × ν) :
    AList (fun _ : κ => ν) :=
  match m.lookup e.1 with
  | none => m.insert e.1 e.2
  | some v => if better e.2 v then m.insert e.1 e.2 else m

/-- Values with their keys, one after the other. -/
def keepAll (better : ν → ν → Bool) (m : AList (fun _ : κ => ν)) (es : List (κ × ν)) :
    AList (fun _ : κ => ν) := es.foldl (keep better) m

theorem keepAll_append (m : AList (fun _ : κ => ν)) (es es' : List (κ × ν)) :
    keepAll better m (es ++ es') = keepAll better (keepAll better m es) es' := List.foldl_append

theorem lookup_keep_ne (m : AList (fun _ : κ => ν)) {e : κ × ν} (hk : k ≠ e.1) :
    (keep better m e).lookup k = m.lookup k := by
  rw [keep]
  cases m.lookup e.1 with
  | none => exact AList.lookup_insert_ne hk
  | some v =>
    show AList.lookup k (if better e.2 v = true then _ else _) = _
    split_ifs
    · exact AList.lookup_insert_ne hk
    · rfl

theorem lookup_keep_self (m : AList (fun _ : κ => ν)) (v : ν) :
    (keep better m (k, v)).lookup k =
      some ((m.lookup k).elim v (fun w => if better v w then v else w)) := by
  rw [keep]
  cases hm : m.lookup k with
  | none => exact AList.lookup_insert m
  | some w =>
    show AList.lookup k (if better v w = true then m.insert k v else m)
      = some (if better v w = true then v else w)
    split_ifs
    · exact AList.lookup_insert m
    · exact hm

/-- A map keeps the best of the values that came. -/
def Kept (better : ν → ν → Bool) (m : AList (fun _ : κ => ν)) (es : List (κ × ν)) : Prop :=
  ∀ k, (m.lookup k = none → ∀ v, (k, v) ∉ es) ∧ ∀ v, m.lookup k = some v → Best better es k v

/-- One more value. -/
theorem Kept.keep {m : AList (fun _ : κ => ν)} (hirrefl : ∀ v, better v v = false)
    (htrans : ∀ u v w, better u v = true → better v w = true → better u w = true)
    (h : Kept better m es) (e : κ × ν) : Kept better (KeepBest.keep better m e) (es ++ [e]) := by
  obtain ⟨k', u⟩ := e
  intro k
  obtain ⟨hnone, hbest⟩ := h k
  by_cases hk : k = k'
  · subst hk
    rw [lookup_keep_self]
    refine ⟨fun hm => absurd hm (Option.some_ne_none _), ?_⟩
    intro v hv
    rw [Option.some_inj] at hv
    subst hv
    cases hm : m.lookup k with
    | none => exact best_concat_of_none hirrefl (hnone hm)
    | some best =>
      show Best better _ k (if better u best = true then u else best)
      split_ifs with hbetter
      · exact best_concat_of_better hirrefl htrans (hbest best hm) hbetter
      · exact best_concat_of_not (hbest best hm) (by simpa using hbetter)
  · rw [lookup_keep_ne m hk]
    refine ⟨?_, ?_⟩
    · intro hm v hv
      obtain hv | hv := mem_concat_iff.mp hv
      · exact hnone hm v hv
      · exact hk (congrArg Prod.fst hv)
    · intro v hm
      exact (best_concat_ne hk).mpr (hbest v hm)

/-- **What is kept is best.** -/
theorem kept_keepAll (hirrefl : ∀ v, better v v = false)
    (htrans : ∀ u v w, better u v = true → better v w = true → better u w = true)
    (es : List (κ × ν)) : Kept better (keepAll better ∅ es) es := by
  induction es using List.reverseRecOn with
  | nil =>
    intro k
    refine ⟨fun _ v => List.not_mem_nil, ?_⟩
    intro v hv
    cases hv
  | append_singleton es e ih =>
    rw [keepAll_append]
    exact ih.keep hirrefl htrans e

end KeepBest

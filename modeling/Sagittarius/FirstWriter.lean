/-
Maps that keep the first value written to a key.

Groups of keys are merged into a map one after the other, each group under its own
value, and a key that is there keeps its value:

* `lookup_merge` — a key has the value of the first group that holds it;
* `lookup_merge_eq_some_iff` — under increasing values, that is the lowest one.
-/
import Mathlib.Data.List.AList
import Mathlib.Order.Lattice

namespace FirstWriter

variable {κ ν : Type} [DecidableEq κ]

/-- Write a value to a key that has none yet. -/
def orInsert (v : ν) (m : AList (fun _ : κ => ν)) (k : κ) : AList (fun _ : κ => ν) :=
  if k ∈ m then m else m.insert k v

/-- Write a value to each of the keys that has none yet. -/
def orInsertAll (m : AList (fun _ : κ => ν)) (v : ν) (ks : List κ) : AList (fun _ : κ => ν) :=
  ks.foldl (orInsert v) m

/-- Groups of keys, one after the other. -/
def merge (m : AList (fun _ : κ => ν)) (groups : List (ν × List κ)) : AList (fun _ : κ => ν) :=
  groups.foldl (fun m g => orInsertAll m g.1 g.2) m

theorem merge_append (m : AList (fun _ : κ => ν)) (gs gs' : List (ν × List κ)) :
    merge m (gs ++ gs') = merge (merge m gs) gs' := List.foldl_append

theorem lookup_orInsert (v : ν) (m : AList (fun _ : κ => ν)) (k k' : κ) :
    (orInsert v m k).lookup k' = (m.lookup k').or (if k' = k then some v else none) := by
  rw [orInsert]
  by_cases hmem : k ∈ m
  · rw [if_pos hmem]
    by_cases hk : k' = k
    · obtain ⟨w, hw⟩ := Option.isSome_iff_exists.mp (AList.lookup_isSome.mpr hmem)
      rw [hk, hw]
      rfl
    · rw [if_neg hk, Option.or_none]
  · rw [if_neg hmem]
    by_cases hk : k' = k
    · rw [hk, AList.lookup_insert, AList.lookup_eq_none.mpr hmem, if_pos rfl]
      rfl
    · rw [AList.lookup_insert_ne hk, if_neg hk, Option.or_none]

theorem lookup_orInsertAll (v : ν) (k : κ) : ∀ (ks : List κ) (m : AList (fun _ : κ => ν)),
    (orInsertAll m v ks).lookup k = (m.lookup k).or (if k ∈ ks then some v else none) := by
  intro ks
  induction ks with
  | nil =>
    intro m
    simp [orInsertAll]
  | cons k' ks ih =>
    intro m
    show (orInsertAll (orInsert v m k') v ks).lookup k = _
    rw [ih, lookup_orInsert, Option.or_assoc]
    by_cases hk : k = k'
    · simp [hk]
    · simp [hk]

/-- A key has the value it had, else that of the first group that holds it. -/
theorem lookup_merge (k : κ) : ∀ (groups : List (ν × List κ)) (m : AList (fun _ : κ => ν)),
    (merge m groups).lookup k =
      (m.lookup k).or ((groups.find? (fun g => k ∈ g.2)).map Prod.fst) := by
  intro groups
  induction groups with
  | nil =>
    intro m
    simp [merge]
  | cons g groups ih =>
    intro m
    show (merge (orInsertAll m g.1 g.2) groups).lookup k = _
    rw [ih, lookup_orInsertAll, Option.or_assoc]
    by_cases hk : k ∈ g.2
    · simp [hk]
    · simp [hk]

/-- The keys of a merge are those of the groups. -/
theorem mem_merge {groups : List (ν × List κ)} {k : κ} :
    k ∈ merge ∅ groups ↔ ∃ g ∈ groups, k ∈ g.2 := by
  rw [← AList.lookup_isSome, lookup_merge, AList.lookup_empty, Option.none_or, Option.isSome_map,
    List.find?_isSome]
  simp

/-- Groups whose values grow: a key has the lowest value of the groups that hold it. -/
theorem lookup_merge_eq_some_iff [LinearOrder ν] {groups : List (ν × List κ)}
    (hsorted : groups.Pairwise (fun g g' => g.1 < g'.1)) {k : κ} {v : ν} :
    (merge ∅ groups).lookup k = some v ↔
      (∃ g ∈ groups, g.1 = v ∧ k ∈ g.2) ∧ ∀ g ∈ groups, k ∈ g.2 → v ≤ g.1 := by
  rw [lookup_merge, AList.lookup_empty, Option.none_or, Option.map_eq_some_iff]
  induction groups with
  | nil => simp
  | cons g groups ih =>
    obtain ⟨hhead, htail⟩ := List.pairwise_cons.mp hsorted
    by_cases hk : k ∈ g.2
    · -- The first group holds the key, and its value is below all later ones.
      have hfind : (g :: groups).find? (fun g => k ∈ g.2) = some g :=
        List.find?_cons_of_pos (by simpa using hk)
      constructor
      · rintro ⟨g', hg', rfl⟩
        rw [hfind] at hg'
        cases hg'
        refine ⟨⟨g, List.mem_cons_self, rfl, hk⟩, ?_⟩
        intro g' hmem _
        rcases List.mem_cons.mp hmem with rfl | hmem
        · exact le_refl _
        · exact le_of_lt (hhead g' hmem)
      · rintro ⟨⟨g', hmem, rfl, _⟩, hleast⟩
        refine ⟨g, hfind, le_antisymm ?_ (hleast g List.mem_cons_self hk)⟩
        rcases List.mem_cons.mp hmem with rfl | hmem
        · exact le_refl _
        · exact le_of_lt (hhead g' hmem)
    · -- The first group does not count on either side.
      have hfind : (g :: groups).find? (fun g => k ∈ g.2) = groups.find? (fun g => k ∈ g.2) :=
        List.find?_cons_of_neg (by simpa using hk)
      rw [hfind, ih htail, List.exists_mem_cons_iff, List.forall_mem_cons]
      simp [hk]

end FirstWriter

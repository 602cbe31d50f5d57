/-
Counts of values, and the values with the largest counts.

`tally xs` pairs each value of a list with how often it occurs.  `top` takes the first of
such pairs, the largest counts first and equal counts by a key of the value:

* `mem_tally`, `tally_perm` — the tally is determined by what it says of each value;
* `top_eq_of_perm` — the top pairs do not depend on the order of the pairs.
-/
import Mathlib.Data.List.Sort
import Mathlib.Data.List.Dedup
import Mathlib.Data.Prod.Lex
import Mathlib.Order.OrderDual

namespace TopCounts

variable {κ ο : Type}

/-! ### Tallies -/

section Tally

variable [DecidableEq κ]

/-- How often each value occurs. -/
def tally (xs : List κ) : List (κ × Nat) := xs.dedup.map (fun k => (k, xs.count k))

theorem mem_tally {xs : List κ} {p : κ × Nat} : p ∈ tally xs ↔ p.1 ∈ xs ∧ p.2 = xs.count p.1 := by
  rw [tally, List.mem_map]
  constructor
  · rintro ⟨k, hk, rfl⟩
    exact ⟨List.mem_dedup.mp hk, rfl⟩
  · rintro ⟨hk, hc⟩
    exact ⟨p.1, List.mem_dedup.mpr hk, Prod.ext rfl hc.symm⟩

theorem keys_tally (xs : List κ) : (tally xs).map Prod.fst = xs.dedup := by
  rw [tally, List.map_map]
  exact List.map_id _

/-- Pairs that say the same of each value are the tally. -/
theorem tally_perm {xs : List κ} {counts : List (κ × Nat)} (hkeys : (counts.map Prod.fst).Nodup)
    (hmem : ∀ p, p ∈ counts ↔ p.1 ∈ xs ∧ p.2 = xs.count p.1) : counts.Perm (tally xs) := by
  have hnodup : (tally xs).Nodup := by
    refine List.Nodup.of_map Prod.fst ?_
    rw [keys_tally]
    exact List.nodup_dedup xs
  refine (List.perm_ext_iff_of_nodup (hkeys.of_map Prod.fst) hnodup).mpr ?_
  intro p
  rw [hmem, mem_tally]

theorem tally_of_perm {xs ys : List κ} (h : xs.Perm ys) : (tally xs).Perm (tally ys) := by
  refine tally_perm ?_ ?_
  · rw [keys_tally]
    exact List.nodup_dedup xs
  · intro p
    rw [mem_tally, h.mem_iff, h.count_eq]

end Tally

/-! ### The top pairs -/

/-- The place of a pair: by its count downwards, then by the key of its value. -/
def rank (key : κ → ο) (p : κ × Nat) : Natᵒᵈ ×ₗ ο := toLex (OrderDual.toDual p.2, key p.1)

theorem rank_injective {key : κ → ο} (hkey : Function.Injective key) :
    Function.Injective (rank key) := by
  intro p q h
  have hpair := Prod.mk.inj (toLex_inj.mp h)
  exact Prod.ext (hkey hpair.2) (OrderDual.toDual_inj.mp hpair.1)

section Top

variable [LinearOrder ο]

/-- The pairs by their ranks. -/
def ranked (key : κ → ο) (counts : List (κ × Nat)) : List (κ × Nat) :=
  counts.insertionSort (fun a b => rank key a ≤ rank key b)

/-- The first `n` pairs. -/
def top (key : κ → ο) (n : Nat) (counts : List (κ × Nat)) : List (κ × Nat) :=
  (ranked key counts).take n

variable {key : κ → ο} {n : Nat} {counts counts' : List (κ × Nat)}

theorem ranked_perm (key : κ → ο) (counts : List (κ × Nat)) : (ranked key counts).Perm counts :=
  List.perm_insertionSort _ counts

theorem ranked_pairwise (key : κ → ο) (counts : List (κ × Nat)) :
    (ranked key counts).Pairwise (fun a b => rank key a ≤ rank key b) :=
  haveI : Std.Total (fun a b : κ × Nat => rank key a ≤ rank key b) := ⟨fun _ _ => le_total _ _⟩
  haveI : IsTrans (κ × Nat) (fun a b => rank key a ≤ rank key b) := ⟨fun _ _ _ => le_trans⟩
  List.pairwise_insertionSort _ counts

/-- **The top pairs** do not depend on the order of the pairs. -/
theorem top_eq_of_perm (hkey : Function.Injective key) (h : counts.Perm counts') :
    top key n counts = top key n counts' := by
  have hperm : (ranked key counts).Perm (ranked key counts') :=
    ((ranked_perm key counts).trans h).trans (ranked_perm key counts').symm
  have hranked : ranked key counts = ranked key counts' := by
    refine hperm.eq_of_pairwise ?_ (ranked_pairwise key counts) (ranked_pairwise key counts')
    intro _ _ _ _ hab hba
    exact rank_injective hkey (le_antisymm hab hba)
  rw [top, top, hranked]

end Top

end TopCounts

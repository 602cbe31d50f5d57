/-
The latency-weighted order of the upstreams (`resolver/upstream/pool.rs`).

Upstreams are drawn one by one, without putting them back, each with a chance that grows
with its weight.  The arithmetic of the weights is a parameter without laws, and its
comparisons are told apart by where they are made, so that they may come out in any way:

* `exists_choose` — the position that is drawn is one of those that remain;
* `exists_round` — a round moves indices from those that remain to the order;
* `weighted_permutation_permutes` — the order is one of all indices, found in at most as
  many rounds as there are;
* `failover_reaches_all` — so with the budget for it every upstream is tried.
-/
import Mathlib.Data.List.Perm.Basic
import Sagittarius.UpstreamPool
import Sagittarius.WhileLoop

namespace Resolver

/-! ### The draws -/

/-- The operations on `f64` of the draws. -/
structure Arithmetic (F : Type) where
  /-- `Iterator::sum` -/
  sum : List F → F
  mul : F → F → F
  sub : F → F → F
  /-- `total <= 0.0`, in a round -/
  totalNonPos : Nat → F → Bool
  /-- `pick <= 0.0`, in a round at a position -/
  pickNonPos : Nat → Nat → F → Bool

/-- The operations of `f64`. -/
def float64 : Arithmetic Float where
  sum := List.foldl (· + ·) (-0.0)
  mul := (· * ·)
  sub := (· - ·)
  totalNonPos := fun _ total => total ≤ 0.0
  pickNonPos := fun _ _ pick => pick ≤ 0.0

/-- The indices that are not drawn yet, and those that are, in the order of the draws. -/
structure Drawing where
  remaining : List Nat
  order : List Nat
  deriving DecidableEq, Repr

section Draws

variable {F : Type} (ops : Arithmetic F) (weights : List F) (draws : Nat → F)

/-- The loop over the positions from `pos` on: the first one at which the pick is used up,
and otherwise the guard. -/
def choose (k : Nat) (guard : Nat) : F → Nat → List Nat → Option Nat
  | _, _, [] => some guard
  | pick, pos, i :: rest =>
    weights[i]?.bind (fun weight =>
      if ops.pickNonPos k pos (ops.sub pick weight) then some pos
      else choose k guard (ops.sub pick weight) (pos + 1) rest)

/-- The body of the loop of `weighted_permutation`; it panics at an index out of bounds. -/
def round (k : Nat) (s : Drawing) : Option Drawing := do
  let remainingWeights ← s.remaining.mapM (fun i => weights[i]?)
  let total := ops.sum remainingWeights
  -- With nothing left the loop would end here without its `break`, too.
  if ops.totalNonPos k total then pure ⟨[], s.order ++ s.remaining⟩
  else
    let chosen ← choose ops weights k (s.remaining.length - 1) (ops.mul (draws k) total) 0 s.remaining
    let i ← s.remaining[chosen]?
    pure ⟨s.remaining.eraseIdx chosen, s.order ++ [i]⟩

/-- The loop of `weighted_permutation`.  `draws k` is what the generator returns in round
`k`. -/
def drawLoop : WhileLoop Drawing where
  done := fun s => s.remaining.isEmpty
  body := round ops weights draws

/-- `weighted_permutation`, for at most so many rounds. -/
def weightedPermutation (fuel : Nat) : Option (List Nat) :=
  ((drawLoop ops weights draws).run fuel 0 ⟨List.range weights.length, []⟩).map (·.order)

end Draws

/-! ### What a round draws -/

section Rounds

variable {F : Type} {ops : Arithmetic F} {weights : List F} {draws : Nat → F}

/-- The position that is drawn is one of the list, or the guard. -/
theorem exists_choose (k guard : Nat) : ∀ {xs : List Nat}, (∀ i ∈ xs, i < weights.length) →
    ∀ (pick : F) (pos : Nat), ∃ chosen, choose ops weights k guard pick pos xs = some chosen ∧
      (chosen = guard ∨ chosen < pos + xs.length) := by
  intro xs
  induction xs with
  | nil =>
    intro _ pick pos
    exact ⟨guard, rfl, .inl rfl⟩
  | cons i xs ih =>
    intro h pick pos
    obtain ⟨weight, hweight⟩ : ∃ weight, weights[i]? = some weight :=
      ⟨_, List.getElem?_eq_getElem (h i List.mem_cons_self)⟩
    rw [choose, hweight, Option.bind_some]
    split_ifs
    · refine ⟨pos, rfl, .inr ?_⟩
      rw [List.length_cons]
      omega
    · obtain ⟨chosen, hchosen, hpos⟩ :=
        ih (fun j hj => h j (List.mem_cons_of_mem i hj)) (ops.sub pick weight) (pos + 1)
      refine ⟨chosen, hchosen, hpos.imp_right ?_⟩
      rw [List.length_cons]
      omega

/-- Every index has its weight. -/
theorem exists_weights : ∀ {xs : List Nat}, (∀ i ∈ xs, i < weights.length) →
    ∃ ws, xs.mapM (fun i => weights[i]?) = some ws := by
  intro xs
  induction xs with
  | nil => exact fun _ => ⟨[], rfl⟩
  | cons i xs ih =>
    intro h
    obtain ⟨ws, hws⟩ := ih (fun j hj => h j (List.mem_cons_of_mem i hj))
    obtain ⟨weight, hweight⟩ : ∃ weight, weights[i]? = some weight :=
      ⟨_, List.getElem?_eq_getElem (h i List.mem_cons_self)⟩
    refine ⟨weight :: ws, ?_⟩
    rw [List.mapM_cons, hweight, hws]
    rfl

/-- Together the indices that remain and those of the order are all of them, each once. -/
def Complete (n : Nat) (s : Drawing) : Prop := (s.order ++ s.remaining).Perm (List.range n)

theorem Complete.lt {n : Nat} {s : Drawing} (h : Complete n s) : ∀ i ∈ s.remaining, i < n := by
  intro i hi
  exact List.mem_range.mp (h.mem_iff.mp (List.mem_append_right s.order hi))

/-- What is drawn goes from one list to the other. -/
theorem Complete.draw {n : Nat} {s : Drawing} (h : Complete n s) {chosen : Nat}
    (hlt : chosen < s.remaining.length) :
    Complete n ⟨s.remaining.eraseIdx chosen, s.order ++ [s.remaining[chosen]]⟩ := by
  refine List.Perm.trans ?_ h
  show (s.order ++ [s.remaining[chosen]] ++ s.remaining.eraseIdx chosen).Perm _
  rw [List.append_assoc]
  exact (List.getElem_cons_eraseIdx_perm hlt).append_left s.order

/-- **One round** ends, keeps every index, and leaves fewer of them. -/
theorem exists_round (k : Nat) {s : Drawing} (h : Complete weights.length s)
    (hne : s.remaining ≠ []) : ∃ s', round ops weights draws k s = some s' ∧
      Complete weights.length s' ∧ s'.remaining.length < s.remaining.length := by
  have hpos : 0 < s.remaining.length := List.length_pos_iff.mpr hne
  obtain ⟨ws, hws⟩ := exists_weights h.lt
  rw [round, hws]
  simp only [Option.bind_eq_bind, Option.bind_some]
  split_ifs
  · -- Nothing but zeros is left: the rest keeps its order.
    refine ⟨_, rfl, ?_, hpos⟩
    show ((s.order ++ s.remaining) ++ []).Perm _
    rw [List.append_nil]
    exact h
  · obtain ⟨chosen, hchosen, hguard⟩ := exists_choose k (s.remaining.length - 1) h.lt
      (ops.mul (draws k) (ops.sum ws)) 0
    have hlt : chosen < s.remaining.length := by
      obtain rfl | hlt := hguard
      · omega
      · omega
    rw [hchosen, Option.bind_some, List.getElem?_eq_getElem hlt, Option.bind_some]
    refine ⟨_, rfl, h.draw hlt, ?_⟩
    show (s.remaining.eraseIdx chosen).length < _
    rw [List.length_eraseIdx_of_lt hlt]
    omega

/-- The loop ends with all indices in the order. -/
theorem weightedPermutation_spec (ops : Arithmetic F) (weights : List F) (draws : Nat → F) :
    ∃ order rounds, order.Perm (List.range weights.length) ∧ rounds ≤ weights.length ∧
      ∀ fuel, weightedPermutation ops weights draws fuel
        = if rounds ≤ fuel then some order else none := by
  have hbody : ∀ k s, Complete weights.length s → (drawLoop ops weights draws).done s = false →
      ∃ s', (drawLoop ops weights draws).body k s = some s' ∧ Complete weights.length s' ∧
        s'.remaining.length < s.remaining.length := by
    intro k s h hdone
    refine exists_round k h ?_
    intro hnil
    have hempty : s.remaining.isEmpty = false := hdone
    rw [hnil] at hempty
    cases hempty
  have hstart : Complete weights.length ⟨List.range weights.length, []⟩ := List.Perm.refl _
  obtain ⟨s, rounds, hcomplete, hdone, hle, hrun⟩ := WhileLoop.exists_rounds hbody 0 hstart
  have hnil : s.remaining = [] := List.isEmpty_iff.mp hdone
  refine ⟨s.order, rounds, ?_, ?_, ?_⟩
  · rw [Complete, hnil, List.append_nil] at hcomplete
    exact hcomplete
  · rwa [List.length_range] at hle
  · intro fuel
    rw [weightedPermutation, hrun]
    split_ifs <;> rfl

end Rounds

/-! ### The selector -/

namespace LatencyWeightedSelector

def BASELINE_MS : Float := 50.0

def MIN_LATENCY_MS : Float := 1.0

def MIN_SUCCESS : Float := 0.05

/-- `f64::max`: of a number and what is none, the number. -/
def f64Max (a b : Float) : Float :=
  if a.isNaN then b else if b.isNaN then a else if a < b then b else a

/-- `LatencyWeightedSelector::weight`. -/
def weight (o : UpstreamObservation) : Float :=
  let latency := f64Max (o.ewmaLatencyMs.getD BASELINE_MS) MIN_LATENCY_MS
  let success := if o.attempts = 0 then 1.0 else f64Max o.successRate MIN_SUCCESS
  success / latency

/-- `LatencyWeightedSelector::order`. -/
def order (draws : Nat → Float) (upstreams : List UpstreamObservation) : Option (List Nat) :=
  weightedPermutation float64 (upstreams.map weight) draws upstreams.length

theorem order_permutes (draws : Nat → Float) (upstreams : List UpstreamObservation) :
    ∃ indices, order draws upstreams = some indices ∧
      indices.Perm (List.range upstreams.length) := by
  obtain ⟨indices, rounds, hperm, hle, hrun⟩ :=
    weightedPermutation_spec float64 (upstreams.map weight) draws
  rw [List.length_map] at hperm hle
  refine ⟨indices, ?_, hperm⟩
  rw [order, hrun, if_pos hle]

end LatencyWeightedSelector

/-- **A weighted order is an order of all indices**: whatever the draws and the comparisons
come out as, no index is lost or repeated, no round fails, and there are at most as many
rounds as indices.  So is the order of the upstreams. -/
theorem weighted_permutation_permutes :
    (∀ (F : Type) (ops : Arithmetic F) (weights : List F) (draws : Nat → F),
      ∃ order rounds, order.Perm (List.range weights.length) ∧ rounds ≤ weights.length ∧
        ∀ fuel, weightedPermutation ops weights draws fuel
          = if rounds ≤ fuel then some order else none) ∧
    ∀ (draws : Nat → Float) (upstreams : List UpstreamObservation),
      ∃ order, LatencyWeightedSelector.order draws upstreams = some order ∧
        order.Perm (List.range upstreams.length) :=
  ⟨fun _ => weightedPermutation_spec, LatencyWeightedSelector.order_permutes⟩

/-- **Failover reaches every upstream**: when the selector has drawn the order, and with
the budget for all of it, a query fails only if no upstream answers. -/
theorem failover_reaches_all {pool : UpstreamPool} {health : UpstreamHealth}
    {draws : Nat → Float} (hne : pool.clients ≠ [])
    (horder : LatencyWeightedSelector.order draws (pool.observations health)
      = some (pool.order health))
    (hmode : pool.parallelFanout = none) (hbudget : pool.clients.length ≤ pool.maxAttempts)
    (answers : Nat → Except UpstreamError MeasuredResult)
    (completion : List Attempt → List Attempt) :
    (∃ result, (pool.forward answers completion health).1 = .ok result) ↔
      ∃ idx < pool.clients.length, ∃ result, answers idx = .ok result := by
  have hperm : (pool.order health).Perm (List.range pool.clients.length) := by
    obtain ⟨indices, hindices, hperm⟩ :=
      LatencyWeightedSelector.order_permutes draws (pool.observations health)
    rw [horder, Option.some_inj] at hindices
    rw [UpstreamPool.observations, List.length_map] at hperm
    rw [hindices]
    exact hperm
  have hall : (pool.order health).take pool.budget = pool.order health := by
    refine List.take_of_length_le ?_
    rw [hperm.length_eq, List.length_range, UpstreamPool.budget, hmode]
    exact hbudget
  rw [UpstreamPool.forward_isOk_iff hne hperm answers (.inl hmode), hall]
  simp only [hperm.mem_iff, List.mem_range]

end Resolver

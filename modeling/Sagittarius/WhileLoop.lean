/-
While loops that may fail.

`loop.run fuel k s` runs a loop from the state `s` on, with `k` rounds behind it and for
at most `fuel` more; it has no result if a round fails or if the rounds do not do:

* `run_done`, `run_round` — a loop that is over, and one round of a loop that is not;
* `exists_rounds` — an invariant that every round keeps and a measure that every round
  lowers give the state at the end, and how many rounds it takes.
-/
import Mathlib.Tactic.Common

/-- A loop: when it is over, and its body in the round with this number. -/
structure WhileLoop (σ : Type) where
  done : σ → Bool
  body : Nat → σ → Option σ

namespace WhileLoop

variable {σ : Type}

/-- The loop from a state on, `k` rounds behind it, for at most `fuel` rounds. -/
def run (loop : WhileLoop σ) : Nat → Nat → σ → Option σ
  | 0, _, s => if loop.done s then some s else none
  | fuel + 1, k, s => if loop.done s then some s else (loop.body k s).bind (loop.run fuel (k + 1))

variable {loop : WhileLoop σ} {s s' : σ} {fuel k : Nat}

theorem run_done (h : loop.done s = true) : loop.run fuel k s = some s := by
  cases fuel with
  | zero => exact if_pos h
  | succ fuel => exact if_pos h

theorem run_zero (h : loop.done s = false) : loop.run 0 k s = none :=
  if_neg (Bool.eq_false_iff.mp h)

theorem run_round (h : loop.done s = false) (hbody : loop.body k s = some s') :
    loop.run (fuel + 1) k s = loop.run fuel (k + 1) s' := by
  rw [run, if_neg (Bool.eq_false_iff.mp h), hbody]
  rfl

/-- **Total correctness**: the loop ends, in a state with the invariant, after at most as
many rounds as the measure says. -/
theorem exists_rounds {Inv : σ → Prop} {measure : σ → Nat}
    (hbody : ∀ k s, Inv s → loop.done s = false →
      ∃ s', loop.body k s = some s' ∧ Inv s' ∧ measure s' < measure s) :
    ∀ {s : σ} (k : Nat), Inv s → ∃ s' rounds, Inv s' ∧ loop.done s' = true ∧
      rounds ≤ measure s ∧
      ∀ fuel, loop.run fuel k s = if rounds ≤ fuel then some s' else none := by
  intro s
  induction hm : measure s using Nat.strongRecOn generalizing s with
  | _ m ih =>
    intro k hinv
    cases hdone : loop.done s with
    | true =>
      refine ⟨s, 0, hinv, hdone, by omega, ?_⟩
      intro fuel
      rw [if_pos (Nat.zero_le fuel)]
      exact run_done hdone
    | false =>
      obtain ⟨s₁, hround, hinv₁, hlt⟩ := hbody k s hinv hdone
      obtain ⟨s', rounds, hinv', hdone', hle, hrun⟩ := ih (measure s₁) (by omega) rfl (k + 1) hinv₁
      refine ⟨s', rounds + 1, hinv', hdone', by omega, ?_⟩
      intro fuel
      cases fuel with
      | zero => rw [run_zero hdone, if_neg (by omega)]
      | succ fuel =>
        rw [run_round hdone hround, hrun]
        simp only [Nat.add_le_add_iff_right]

end WhileLoop

/-
Runs of a partial step function.

A system is a step function `S → E → Option S`: an event that does not apply in
a state gives `none`.  A run is the fold of the step function over a list of
events, so every interleaving of a set of actors is one list:

* `run_invariant` — what every step keeps holds after every run;
* `run_invariant_along` — the same for the runs whose steps all meet a
  condition on the state they start from;
* `run_history` — the same for an invariant that speaks of the events so far;
* `view_run`, `foldl_filter_of_fixed` — a run seen through a view with steps of
  its own, and the events the view does not see.
-/
import Mathlib.Data.List.Basic

namespace Transition

variable {S E : Type} {step : S → E → Option S}

/-- The state after a run, if each of its events applies in turn. -/
def run (step : S → E → Option S) (s : S) (es : List E) : Option S := es.foldlM step s

/-- `P` holds of each event of the run and of the state it meets. -/
def Along (step : S → E → Option S) (P : S → E → Prop) : S → List E → Prop
  | _, [] => True
  | s, e :: es =>
    P s e ∧ match step s e with
      | some s' => Along step P s' es
      | none => True

instance Along.decidable (step : S → E → Option S) (P : S → E → Prop)
    [∀ s e, Decidable (P s e)] : ∀ (s : S) (es : List E), Decidable (Along step P s es)
  | _, [] => instDecidableTrue
  | s, e :: es =>
    have : Decidable (match step s e with
        | some s' => Along step P s' es
        | none => True) :=
      match step s e with
      | some s' => Along.decidable step P s' es
      | none => instDecidableTrue
    inferInstanceAs (Decidable (_ ∧ _))

/-- A run along `P` is a run along all that `P` gives. -/
theorem Along.mono {P Q : S → E → Prop} (hPQ : ∀ s e, P s e → Q s e) :
    ∀ {es : List E} {s : S}, Along step P s es → Along step Q s es := by
  intro es
  induction es with
  | nil => exact fun _ => trivial
  | cons e es ih =>
    intro s h
    obtain ⟨he, hrest⟩ := h
    refine ⟨hPQ s e he, ?_⟩
    cases hs : step s e with
    | none => trivial
    | some s' =>
      rw [hs] at hrest
      exact ih hrest

/-- What holds of each event in every state holds along the run. -/
theorem Along.of_forall {P : S → E → Prop} :
    ∀ {es : List E} {s : S}, (∀ e ∈ es, ∀ s, P s e) → Along step P s es := by
  intro es
  induction es with
  | nil => exact fun _ => trivial
  | cons e es ih =>
    intro s h
    refine ⟨h e List.mem_cons_self s, ?_⟩
    cases step s e with
    | none => trivial
    | some s' => exact ih (fun e' he' => h e' (List.mem_cons_of_mem e he'))

@[simp] theorem run_nil (s : S) : run step s [] = some s := rfl

theorem run_cons {s s' : S} {e : E} {es : List E} :
    run step s (e :: es) = some s' ↔ ∃ s₁, step s e = some s₁ ∧ run step s₁ es = some s' := by
  rw [run, List.foldlM_cons, Option.bind_eq_bind, Option.bind_eq_some_iff]
  rfl

theorem run_append {s s' : S} {es es' : List E} :
    run step s (es ++ es') = some s' ↔
      ∃ s₁, run step s es = some s₁ ∧ run step s₁ es' = some s' := by
  rw [run, List.foldlM_append, Option.bind_eq_bind, Option.bind_eq_some_iff]
  rfl

/-- What every step that meets `P` keeps holds after every run along `P`. -/
theorem run_invariant_along {P : S → E → Prop} {Inv : S → Prop}
    (hstep : ∀ {s s' : S} {e : E}, Inv s → P s e → step s e = some s' → Inv s') :
    ∀ {es : List E} {s s' : S}, Inv s → Along step P s es → run step s es = some s' → Inv s' := by
  intro es
  induction es with
  | nil =>
    intro s s' hinv _ hrun
    rw [run_nil, Option.some.injEq] at hrun
    exact hrun ▸ hinv
  | cons e es ih =>
    intro s s' hinv halong hrun
    obtain ⟨s₁, he, hes⟩ := run_cons.mp hrun
    obtain ⟨hgood, hrest⟩ := halong
    rw [he] at hrest
    exact ih (hstep hinv hgood he) hrest hes

/-- What every step keeps holds after every run. -/
theorem run_invariant {Inv : S → Prop}
    (hstep : ∀ {s s' : S} {e : E}, Inv s → step s e = some s' → Inv s')
    {es : List E} {s s' : S} (hinv : Inv s) (hrun : run step s es = some s') : Inv s' := by
  have htrue : Along step (fun _ _ => True) s es := Along.of_forall (fun _ _ _ => trivial)
  exact run_invariant_along (fun h _ he => hstep h he) hinv htrue hrun

/-- What every step that meets `P` keeps of a state and the events that led to it
holds after every run along `P`. -/
theorem run_history {P : S → E → Prop} {Inv : List E → S → Prop}
    (hstep : ∀ {hist : List E} {s s' : S} {e : E}, Inv hist s → P s e → step s e = some s' →
      Inv (hist ++ [e]) s') :
    ∀ {es hist : List E} {s s' : S}, Inv hist s → Along step P s es → run step s es = some s' →
      Inv (hist ++ es) s' := by
  intro es
  induction es with
  | nil =>
    intro hist s s' hinv _ hrun
    rw [run_nil, Option.some.injEq] at hrun
    rw [List.append_nil]
    exact hrun ▸ hinv
  | cons e es ih =>
    intro hist s s' hinv halong hrun
    obtain ⟨s₁, he, hes⟩ := run_cons.mp hrun
    obtain ⟨hgood, hrest⟩ := halong
    rw [he] at hrest
    have hrun₁ := ih (hstep hinv hgood he) hrest hes
    rw [List.append_assoc] at hrun₁
    exact hrun₁

/-! ### Views

A view of the state whose next value depends only on itself and the event. -/

section View

variable {V : Type} {view : S → V} {vstep : V → E → V}

/-- A run, seen through a view, is the fold of the view's own steps. -/
theorem view_run (hview : ∀ {s s' : S} {e : E}, step s e = some s' → view s' = vstep (view s) e) :
    ∀ {es : List E} {s s' : S}, run step s es = some s' → view s' = es.foldl vstep (view s) := by
  intro es
  induction es with
  | nil =>
    intro s s' hrun
    rw [run_nil, Option.some.injEq] at hrun
    exact hrun ▸ rfl
  | cons e es ih =>
    intro s s' hrun
    obtain ⟨s₁, he, hes⟩ := run_cons.mp hrun
    rw [ih hes, hview he, List.foldl_cons]

/-- Events that leave the view alone might as well be left out. -/
theorem foldl_filter_of_fixed {Inv : V → Prop} {keep : E → Bool}
    (hinv : ∀ v e, Inv v → Inv (vstep v e)) : ∀ {es : List E} {v : V}, Inv v →
    (∀ e ∈ es, keep e = false → ∀ v, Inv v → vstep v e = v) →
    (es.filter keep).foldl vstep v = es.foldl vstep v := by
  intro es
  induction es with
  | nil =>
    intro v _ _
    rfl
  | cons e es ih =>
    intro v hv hfix
    have hrest := fun e' he' => hfix e' (List.mem_cons_of_mem e he')
    rw [List.foldl_cons]
    cases hkeep : keep e with
    | true => rw [List.filter_cons_of_pos hkeep, List.foldl_cons, ih (hinv v e hv) hrest]
    | false =>
      rw [List.filter_cons_of_neg (by simp [hkeep]), hfix e List.mem_cons_self hkeep v hv,
        ih hv hrest]

end View

end Transition

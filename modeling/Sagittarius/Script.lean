/-
Scripts of statements that stop at the first error.

A script takes a state to the state it leaves and the error that stopped it, if
any: what was done before the error stays done.

* `andThen_ok_iff`, `andThen_error_iff` — two scripts in a row;
* `forEach_error` — where a loop stops, and in which state;
* `Keeps.forEach` — what every round keeps, a loop keeps.
-/
import Mathlib.Data.List.Basic

/-- A script over states `σ` with errors `ε`. -/
abbrev Script (ε σ : Type) := σ → σ × Option ε

namespace Script

variable {ε σ α : Type}

def skip : Script ε σ := fun s => (s, none)

/-- A statement that cannot fail. -/
def modify (f : σ → σ) : Script ε σ := fun s => (f s, none)

/-- A statement that changes nothing when it fails. -/
def attempt (f : σ → Except ε σ) : Script ε σ := fun s =>
  match f s with
  | .ok s' => (s', none)
  | .error e => (s, some e)

/-- A check of the state. -/
def check (f : σ → Option ε) : Script ε σ := fun s => (s, f s)

/-- One script, then the other. -/
def andThen (m n : Script ε σ) : Script ε σ := fun s =>
  match m s with
  | (s', none) => n s'
  | (s', some e) => (s', some e)

/-- A script for each element of a list. -/
def forEach (f : α → Script ε σ) : List α → Script ε σ
  | [] => skip
  | x :: xs => andThen (f x) (forEach f xs)

/-- A script on a part of the state. -/
def onPart {τ : Type} (get : σ → τ) (set : σ → τ → σ) (m : Script ε τ) : Script ε σ := fun s =>
  (set s (m (get s)).1, (m (get s)).2)

theorem attempt_ok_iff {f : σ → Except ε σ} {s s' : σ} :
    attempt f s = (s', none) ↔ f s = .ok s' := by
  unfold attempt
  cases f s with
  | ok t => simp
  | error e => simp

theorem attempt_error_iff {f : σ → Except ε σ} {s s' : σ} {e : ε} :
    attempt f s = (s', some e) ↔ s' = s ∧ f s = .error e := by
  unfold attempt
  cases f s with
  | ok t => simp
  | error e' => simp [eq_comm]

theorem andThen_ok_iff {m n : Script ε σ} {s s' : σ} :
    andThen m n s = (s', none) ↔ ∃ s₁, m s = (s₁, none) ∧ n s₁ = (s', none) := by
  unfold andThen
  obtain ⟨s₁, e⟩ := m s
  cases e with
  | none => simp
  | some e => simp

theorem andThen_error_iff {m n : Script ε σ} {s s' : σ} {e : ε} :
    andThen m n s = (s', some e) ↔
      m s = (s', some e) ∨ ∃ s₁, m s = (s₁, none) ∧ n s₁ = (s', some e) := by
  unfold andThen
  obtain ⟨s₁, e₁⟩ := m s
  cases e₁ with
  | none => simp
  | some e₁ => simp

/-- A script with a check behind it. -/
theorem andThen_check {m : Script ε σ} {f : σ → Option ε} {s s' : σ} {r : Option ε}
    (h : andThen m (check f) s = (s', r)) :
    m s = (s', none) ∨ ∃ e, r = some e ∧ m s = (s', some e) := by
  unfold andThen at h
  revert h
  obtain ⟨s₁, e⟩ := m s
  intro h
  cases e with
  | none =>
    cases h
    exact .inl rfl
  | some e =>
    cases h
    exact .inr ⟨e, rfl, rfl⟩

/-- A loop over the elements that are not skipped. -/
theorem forEach_skip {f : α → Script ε σ} {q : α → Prop} [DecidablePred q] (xs : List α) :
    forEach (fun x => if q x then skip else f x) xs = forEach f (xs.filter (fun x => ¬ q x)) := by
  induction xs with
  | nil => rfl
  | cons x xs ih =>
    rw [forEach, ih]
    by_cases hq : q x
    · rw [if_pos hq, List.filter_cons_of_neg (by simpa using hq)]
      rfl
    · rw [if_neg hq, List.filter_cons_of_pos (by simpa using hq)]
      rfl

/-- A loop gets through when each of its rounds does, in whatever state. -/
theorem forEach_isOk_iff {f : α → Script ε σ} {q : α → Prop}
    (hf : ∀ x s, (∃ s', f x s = (s', none)) ↔ q x) : ∀ {xs : List α} {s : σ},
    (∃ s', forEach f xs s = (s', none)) ↔ ∀ x ∈ xs, q x := by
  intro xs
  induction xs with
  | nil => exact fun {s} => iff_of_true ⟨s, rfl⟩ (by simp)
  | cons x xs ih =>
    intro s
    rw [List.forall_mem_cons]
    constructor
    · rintro ⟨s', h⟩
      obtain ⟨s₁, h₁, h'⟩ := andThen_ok_iff.mp h
      exact ⟨(hf x s).mp ⟨s₁, h₁⟩, ih.mp ⟨s', h'⟩⟩
    · rintro ⟨hx, hxs⟩
      obtain ⟨s₁, h₁⟩ := (hf x s).mpr hx
      obtain ⟨s', h'⟩ := (ih (s := s₁)).mpr hxs
      exact ⟨s', andThen_ok_iff.mpr ⟨s₁, h₁, h'⟩⟩

/-- In a loop that gets through, so does each round. -/
theorem forEach_ok_mem {f : α → Script ε σ} {x : α} : ∀ {xs : List α} {s s' : σ},
    forEach f xs s = (s', none) → x ∈ xs → ∃ s₁ s₂, f x s₁ = (s₂, none) := by
  intro xs
  induction xs with
  | nil =>
    intro s s' _ hx
    cases hx
  | cons y xs ih =>
    intro s s' h hx
    obtain ⟨s₁, h₁, h'⟩ := andThen_ok_iff.mp h
    rcases List.mem_cons.mp hx with rfl | hx
    · exact ⟨s, s₁, h₁⟩
    · exact ih h' hx

/-- A loop stops at an element, in the state the elements before it left. -/
theorem forEach_error {f : α → Script ε σ} : ∀ {xs : List α} {s s' : σ} {e : ε},
    forEach f xs s = (s', some e) → ∃ pre x post s₁, xs = pre ++ x :: post ∧
      forEach f pre s = (s₁, none) ∧ f x s₁ = (s', some e) := by
  intro xs
  induction xs with
  | nil =>
    intro s s' e h
    cases h
  | cons x xs ih =>
    intro s s' e h
    rcases andThen_error_iff.mp h with h | ⟨s₁, h₁, h⟩
    · exact ⟨[], x, xs, s, rfl, rfl, h⟩
    · obtain ⟨pre, y, post, s₂, rfl, hpre, hy⟩ := ih h
      exact ⟨x :: pre, y, post, s₂, rfl, andThen_ok_iff.mpr ⟨s₁, h₁, hpre⟩, hy⟩

/-- A script keeps a property of the state, whatever it returns. -/
def Keeps (P : σ → Prop) (m : Script ε σ) : Prop := ∀ s, P s → P (m s).1

variable {P : σ → Prop}

theorem Keeps.skip : Keeps P (Script.skip : Script ε σ) := fun _ h => h

theorem Keeps.attempt {f : σ → Except ε σ} (h : ∀ s s', P s → f s = .ok s' → P s') :
    Keeps P (Script.attempt f) := by
  intro s hs
  unfold Script.attempt
  cases hf : f s with
  | ok s' => exact h s s' hs hf
  | error e => exact hs

theorem Keeps.check (f : σ → Option ε) : Keeps P (Script.check f) := fun _ h => h

theorem Keeps.andThen {m n : Script ε σ} (hm : Keeps P m) (hn : Keeps P n) :
    Keeps P (Script.andThen m n) := by
  intro s hs
  have hs₁ := hm s hs
  unfold Script.andThen
  revert hs₁
  obtain ⟨s₁, e⟩ := m s
  intro hs₁
  cases e with
  | none => exact hn s₁ hs₁
  | some e => exact hs₁

theorem Keeps.forEach {f : α → Script ε σ} : ∀ {xs : List α}, (∀ x ∈ xs, Keeps P (f x)) →
    Keeps P (Script.forEach f xs) := by
  intro xs
  induction xs with
  | nil => exact fun _ => .skip
  | cons x xs ih =>
    intro h
    exact (h x List.mem_cons_self).andThen (ih (fun y hy => h y (List.mem_cons_of_mem _ hy)))

end Script

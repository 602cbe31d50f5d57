/-
Bringing a table to a wanted list, key by key.

A reconciliation puts each wanted element, which may change only the row of its
own key, and then drops the rows that are not wanted:

* `forEach_put` — after the puts, each wanted element has its row and the other
  rows are as they were;
* `forEach_drop` — the rows after the drops;
* `reconcile` — together: the rows are those of the wanted elements;
* `reconcile_listed` — the same when the drops go by a list made before the puts.
-/
import Sagittarius.Script
import Sagittarius.SqlTable

namespace Sql.Table

variable {ρ κ ω ν ε : Type} {S : Schema ρ κ}

/-- The two tables have the same rows under a key. -/
def AgreeAt (t t' : Table S) (k : κ) : Prop := ∀ r, S.keyOf r = k → (r ∈ t'.rows ↔ r ∈ t.rows)

section Statements

variable {t t' : Table S} {p : Nat × ρ → Bool} {k₀ k : κ}

theorem agreeAt_insert [DecidableEq κ] {v : ρ} (h : t.insert v = .ok t')
    (hk : k ≠ S.key t.nextId v) : AgreeAt t t' k := by
  rintro r rfl
  rw [rows_of_insert h, List.mem_append, List.mem_singleton, or_iff_left]
  rintro rfl
  exact hk rfl

theorem agreeAt_deleteWhere (hp : ∀ r ∈ t.rows, p r = true → S.keyOf r = k₀) (hk : k ≠ k₀) :
    AgreeAt t (t.deleteWhere p) k := by
  rintro r rfl
  rw [mem_deleteWhere, and_iff_left_iff_imp]
  intro hr
  rw [Bool.eq_false_iff]
  exact fun hpr => hk (hp r hr hpr)

theorem agreeAt_modifyWhere {f : ρ → ρ} {hf : Keeps S f}
    (hp : ∀ r ∈ t.rows, p r = true → S.keyOf r = k₀) (hk : k ≠ k₀) :
    AgreeAt t (t.modifyWhere p f hf) k := by
  rintro r rfl
  rw [mem_modifyWhere]
  constructor
  · rintro ⟨r₀, hr₀, rfl⟩
    by_cases hpr : p r₀ = true
    · exact absurd ((hf.keyOf_modifyRow p r₀).trans (hp r₀ hr₀ hpr)) hk
    · rw [modifyRow, if_neg hpr]
      exact hr₀
  · intro hr
    have hpr : ¬ p r = true := fun hpr => hk (hp r hr hpr)
    exact ⟨r, hr, by rw [modifyRow, if_neg hpr]⟩

variable {r : Nat × ρ} {id : Nat}

/-- An update by id changes one row. -/
theorem modifyWhere_id (hr : r ∈ t.rows) (hid : r.1 = id) {f : ρ → ρ} (hf : Keeps S f) :
    (∀ k, k ≠ S.keyOf r → AgreeAt t (t.modifyWhere (fun x => x.1 = id) f hf) k) ∧
      (r.1, f r.2) ∈ (t.modifyWhere (fun x => x.1 = id) f hf).rows := by
  refine ⟨?_, ?_⟩
  · intro k hk
    refine agreeAt_modifyWhere ?_ hk
    intro x hx hxid
    rw [eq_of_id_eq hx hr ((of_decide_eq_true hxid).trans hid.symm)]
  · refine mem_modifyWhere.mpr ⟨r, hr, ?_⟩
    rw [modifyRow, if_pos (decide_eq_true hid)]

/-- A delete by id takes one row. -/
theorem deleteWhere_id (hr : r ∈ t.rows) (hid : r.1 = id) (hk : k ≠ S.keyOf r) :
    AgreeAt t (t.deleteWhere (fun x => x.1 = id)) k := by
  refine agreeAt_deleteWhere ?_ hk
  intro x hx hxid
  rw [eq_of_id_eq hx hr ((of_decide_eq_true hxid).trans hid.symm)]

end Statements

theorem AgreeAt.trans {t t₁ t' : Table S} {k : κ} (h : AgreeAt t t₁ k) (h' : AgreeAt t₁ t' k) :
    AgreeAt t t' k :=
  fun r hr => (h' r hr).trans (h r hr)

/-- A put may change the row of its own key only, and leaves a row that fits.  It
may rely on that row being as it was in the table `t₀` at the start. -/
def PutsFrom (t₀ : Table S) (wkey : ω → κ) (Fits : ω → ρ → Prop)
    (put : ω → Script ε (Table S)) (x : ω) : Prop :=
  ∀ t t', AgreeAt t₀ t (wkey x) → put x t = (t', none) →
    (∀ k, k ≠ wkey x → AgreeAt t t' k) ∧ ∃ r ∈ t'.rows, S.keyOf r = wkey x ∧ Fits x r.2

theorem forEach_put {t₀ : Table S} {wkey : ω → κ} {Fits : ω → ρ → Prop}
    {put : ω → Script ε (Table S)} : ∀ {want : List ω} {t t₁ : Table S},
    (∀ x ∈ want, PutsFrom t₀ wkey Fits put x) → (want.map wkey).Nodup →
    (∀ k ∈ want.map wkey, AgreeAt t₀ t k) → Script.forEach put want t = (t₁, none) →
    (∀ k, k ∉ want.map wkey → AgreeAt t t₁ k) ∧
      ∀ x ∈ want, ∃ r ∈ t₁.rows, S.keyOf r = wkey x ∧ Fits x r.2 := by
  intro want
  induction want with
  | nil =>
    intro t t₁ _ _ _ h
    cases h
    exact ⟨fun _ _ _ _ => Iff.rfl, by simp⟩
  | cons x xs ih =>
    intro t t₁ hputs hnodup hagree h
    obtain ⟨t', hx, hxs⟩ := Script.andThen_ok_iff.mp h
    rw [List.map_cons] at hnodup hagree ⊢
    obtain ⟨hxnot, hxsnodup⟩ := List.nodup_cons.mp hnodup
    obtain ⟨hothers, r, hr, hkey, hfits⟩ :=
      hputs x List.mem_cons_self t t' (hagree _ List.mem_cons_self) hx
    -- The keys still to come are not touched by this put.
    have hagree' : ∀ k ∈ xs.map wkey, AgreeAt t₀ t' k := by
      intro k hk r hrk
      have hne : k ≠ wkey x := fun heq => hxnot (heq ▸ hk)
      exact (hothers k hne r hrk).trans (hagree k (List.mem_cons_of_mem _ hk) r hrk)
    obtain ⟨hkeep, hrest⟩ := ih (fun y hy => hputs y (List.mem_cons_of_mem _ hy)) hxsnodup hagree' hxs
    refine ⟨?_, ?_⟩
    · intro k hk r hrk
      rw [List.mem_cons, not_or] at hk
      exact (hkeep k hk.2 r hrk).trans (hothers k hk.1 r hrk)
    · intro y hy
      rcases List.mem_cons.mp hy with rfl | hy
      · exact ⟨r, (hkeep _ hxnot r hkey).mpr hr, hkey, hfits⟩
      · exact hrest y hy

/-- A drop never fails and takes the rows of its kind. -/
def DropsWhere (drop : ν → Script ε (Table S)) (p : ν → Nat × ρ → Prop) : Prop :=
  ∀ x t, ∃ t', drop x t = (t', none) ∧ ∀ r, r ∈ t'.rows ↔ r ∈ t.rows ∧ ¬ p x r

theorem forEach_drop {drop : ν → Script ε (Table S)} {p : ν → Nat × ρ → Prop}
    (hdrop : DropsWhere drop p) : ∀ (xs : List ν) (t : Table S),
    ∃ t', Script.forEach drop xs t = (t', none) ∧
      ∀ r, r ∈ t'.rows ↔ r ∈ t.rows ∧ ∀ x ∈ xs, ¬ p x r := by
  intro xs
  induction xs with
  | nil =>
    intro t
    exact ⟨t, rfl, by simp⟩
  | cons x xs ih =>
    intro t
    obtain ⟨t₁, h₁, hmem₁⟩ := hdrop x t
    obtain ⟨t', h', hmem'⟩ := ih t₁
    refine ⟨t', Script.andThen_ok_iff.mpr ⟨t₁, h₁, h'⟩, ?_⟩
    intro r
    rw [hmem', hmem₁, List.forall_mem_cons, and_assoc]

/-- After the puts and the drops of a reconciliation, the rows are those of the
wanted elements.  The drops must take every row that is not wanted, and no other. -/
theorem reconcile {t₀ t₁ t' : Table S} {wkey : ω → κ} {Fits : ω → ρ → Prop}
    {put : ω → Script ε (Table S)} {want : List ω}
    (hputs : ∀ x ∈ want, PutsFrom t₀ wkey Fits put x) (hnodup : (want.map wkey).Nodup)
    (h₁ : Script.forEach put want t₀ = (t₁, none))
    (hdrop : ∀ r, r ∈ t'.rows ↔ r ∈ t₁.rows ∧ S.keyOf r ∈ want.map wkey) :
    (∀ x ∈ want, ∃ r ∈ t'.rows, S.keyOf r = wkey x ∧ Fits x r.2) ∧
      ∀ r ∈ t'.rows, ∃ x ∈ want, S.keyOf r = wkey x ∧ Fits x r.2 := by
  obtain ⟨_, hrows⟩ := forEach_put hputs hnodup (fun _ _ _ _ => Iff.rfl) h₁
  refine ⟨?_, ?_⟩
  · intro x hx
    obtain ⟨r, hr, hkey, hfits⟩ := hrows x hx
    exact ⟨r, (hdrop r).mpr ⟨hr, hkey ▸ List.mem_map_of_mem hx⟩, hkey, hfits⟩
  · intro r hr
    obtain ⟨hr₁, hwanted⟩ := (hdrop r).mp hr
    obtain ⟨x, hx, hkey⟩ := List.mem_map.mp hwanted
    obtain ⟨r', hr', hkey', hfits⟩ := hrows x hx
    have heq : r' = r :=
      List.inj_on_of_nodup_map t₁.keys_nodup hr' hr₁ (hkey'.trans hkey)
    exact ⟨x, hx, hkey.symm, heq ▸ hfits⟩

/-- A list of what a table holds, with the id and the key of each element. -/
structure Listing (t : Table S) (idOf : ν → Nat) (bkey : ν → κ) (listed : List ν) : Prop where
  stored : ∀ b ∈ listed, ∃ r ∈ t.rows, r.1 = idOf b ∧ S.keyOf r = bkey b
  listed : ∀ r ∈ t.rows, ∃ b ∈ listed, idOf b = r.1 ∧ bkey b = S.keyOf r

/-- A reconciliation that drops, by id, what was listed before the puts. -/
theorem reconcile_listed {t₀ t' : Table S} {wkey : ω → κ} {Fits : ω → ρ → Prop}
    {put : ω → Script ε (Table S)} {want : List ω} {idOf : ν → Nat} {bkey : ν → κ}
    {listed : List ν} {drop : ν → Script ε (Table S)} (hlist : Listing t₀ idOf bkey listed)
    (hputs : ∀ x ∈ want, PutsFrom t₀ wkey Fits put x) (hnodup : (want.map wkey).Nodup)
    (hdrop : DropsWhere drop (fun b r => bkey b ∉ want.map wkey ∧ r.1 = idOf b))
    (h : Script.andThen (Script.forEach put want) (Script.forEach drop listed) t₀ = (t', none)) :
    (∀ x ∈ want, ∃ r ∈ t'.rows, S.keyOf r = wkey x ∧ Fits x r.2) ∧
      ∀ r ∈ t'.rows, ∃ x ∈ want, S.keyOf r = wkey x ∧ Fits x r.2 := by
  obtain ⟨t₁, hput, hdrops⟩ := Script.andThen_ok_iff.mp h
  obtain ⟨t₂, hrun, hmem⟩ := forEach_drop hdrop listed t₁
  rw [hrun] at hdrops
  cases hdrops
  obtain ⟨hkeep, _⟩ := forEach_put hputs hnodup (fun _ _ _ _ => Iff.rfl) hput
  refine reconcile hputs hnodup hput ?_
  intro r
  rw [hmem]
  refine and_congr_right (fun hr => ?_)
  constructor
  · -- A row that is not wanted was there before the puts, and so it was listed.
    intro hall
    by_contra hnot
    obtain ⟨b, hb, hid, hkey⟩ := hlist.listed r ((hkeep _ hnot r rfl).mp hr)
    exact hall b hb ⟨hkey ▸ hnot, hid.symm⟩
  · -- The puts left the rows of the keys that are not wanted, and ids are unique.
    rintro hin b hb ⟨hnot, hid⟩
    obtain ⟨r₀, hr₀, hid₀, hkey₀⟩ := hlist.stored b hb
    have hr₁ : r₀ ∈ t₁.rows := (hkeep _ (hkey₀.symm ▸ hnot) r₀ rfl).mpr hr₀
    have heq : r = r₀ := eq_of_id_eq hr hr₁ (hid.trans hid₀.symm)
    exact hnot (hkey₀ ▸ heq ▸ hin)

end Sql.Table

/-
Tables with generated ids, a unique key and a check.

A table holds its rows in id order, together with the proofs that the ids grow,
that no two rows share a key and that every row passes the check, so a table
that breaks its schema cannot be built.  A new row gets an id that was never
used before.  A statement that would break the schema fails and changes
nothing:

* `insert_ok_iff` — when an insert succeeds, and what it leaves;
* `rows_of_insert`, `mem_deleteWhere`, `mem_modifyWhere` — the rows after a
  statement;
* `findKey_eq_some` — there is at most one row with a key;
* `NoReuse`, `Grows` — the id of a row that is gone is not given again.
-/
import Mathlib.Data.List.Nodup
import Mathlib.Data.List.Perm.Basic

namespace Sql

/-- A unique key, which may be the id itself, and the check of a row. -/
structure Schema (ρ κ : Type) where
  key : Nat → ρ → κ
  check : ρ → Bool

/-- The constraint a statement breaks. -/
inductive Violation where
  | unique
  | check
  deriving DecidableEq, Repr

variable {ρ κ : Type}

/-- The key of a stored row. -/
def Schema.keyOf (S : Schema ρ κ) (r : Nat × ρ) : κ := S.key r.1 r.2

structure Table (S : Schema ρ κ) where
  rows : List (Nat × ρ)
  nextId : Nat
  ids_lt_of_sorted : rows.Pairwise (fun a b => a.1 < b.1)
  id_lt : ∀ r ∈ rows, r.1 < nextId
  keys_nodup : (rows.map S.keyOf).Nodup
  checked : ∀ r ∈ rows, S.check r.2 = true

namespace Table

variable {S : Schema ρ κ}

/-- A table without rows. -/
def empty (S : Schema ρ κ) : Table S := ⟨[], 1, .nil, by simp, .nil, by simp⟩

variable [DecidableEq κ]

/-- The row with a key. -/
def findKey (t : Table S) (k : κ) : Option (Nat × ρ) := t.rows.find? (fun r => S.keyOf r = k)

theorem findKey_eq_some {t : Table S} {k : κ} {r : Nat × ρ} :
    t.findKey k = some r ↔ r ∈ t.rows ∧ S.keyOf r = k := by
  constructor
  · intro h
    exact ⟨List.mem_of_find?_eq_some h, by simpa using List.find?_some h⟩
  · rintro ⟨hmem, rfl⟩
    have hsome : (t.findKey (S.keyOf r)).isSome := by
      rw [findKey, List.find?_isSome]
      exact ⟨r, hmem, by simp⟩
    obtain ⟨r', hr'⟩ := Option.isSome_iff_exists.mp hsome
    have hmem' : r' ∈ t.rows := List.mem_of_find?_eq_some hr'
    have hkey : S.keyOf r' = S.keyOf r := by
      simpa using List.find?_some hr'
    have heq : r' = r := List.inj_on_of_nodup_map t.keys_nodup hmem' hmem hkey
    exact heq ▸ hr'

theorem findKey_eq_none {t : Table S} {k : κ} :
    t.findKey k = none ↔ ∀ r ∈ t.rows, S.keyOf r ≠ k := by
  rw [findKey, List.find?_eq_none]
  simp

/-- The keys that are taken. -/
def keys (t : Table S) : List κ := t.rows.map S.keyOf

theorem findKey_eq_none_iff_not_mem {t : Table S} {k : κ} : t.findKey k = none ↔ k ∉ t.keys := by
  rw [findKey_eq_none, keys, List.mem_map]
  simp

omit [DecidableEq κ] in
theorem eq_of_key_eq {t : Table S} {r r' : Nat × ρ} (h : r ∈ t.rows) (h' : r' ∈ t.rows)
    (hkey : S.keyOf r = S.keyOf r') : r = r' :=
  List.inj_on_of_nodup_map t.keys_nodup h h' hkey

omit [DecidableEq κ] in
theorem eq_of_id_eq {t : Table S} {r r' : Nat × ρ} (h : r ∈ t.rows) (h' : r' ∈ t.rows)
    (hid : r.1 = r'.1) : r = r' := by
  have hnodup : (t.rows.map Prod.fst).Nodup := by
    rw [List.Nodup, List.pairwise_map]
    exact t.ids_lt_of_sorted.imp (fun hlt => Nat.ne_of_lt hlt)
  exact List.inj_on_of_nodup_map hnodup h h' hid

omit [DecidableEq κ] in
/-- The rows are in id order, so that it is enough to know which they are. -/
theorem rows_eq_iff {t t' : Table S} : t'.rows = t.rows ↔ ∀ r, r ∈ t'.rows ↔ r ∈ t.rows := by
  constructor
  · intro h r
    rw [h]
  · intro h
    have hnodup : ∀ s : Table S, s.rows.Nodup := fun s =>
      s.ids_lt_of_sorted.imp (fun hlt heq => Nat.ne_of_lt hlt (congrArg Prod.fst heq))
    have hperm : t'.rows.Perm t.rows :=
      (List.perm_ext_iff_of_nodup (hnodup t') (hnodup t)).mpr h
    refine hperm.eq_of_pairwise ?_ t'.ids_lt_of_sorted t.ids_lt_of_sorted
    intro a b _ _ hab hba
    exact absurd hab (Nat.lt_asymm hba)

omit [DecidableEq κ] in
/-- A table with the rows of another one and no other key has no other row. -/
theorem rows_eq_of_subset {t t' : Table S} (hrows : ∀ r ∈ t.rows, r ∈ t'.rows)
    (hkeys : ∀ r ∈ t'.rows, S.keyOf r ∈ t.rows.map S.keyOf) : t'.rows = t.rows := by
  rw [rows_eq_iff]
  intro r
  refine ⟨fun hr => ?_, hrows r⟩
  obtain ⟨r₀, hr₀, hkey⟩ := List.mem_map.mp (hkeys r hr)
  exact eq_of_key_eq (hrows r₀ hr₀) hr hkey ▸ hr₀

/-! ### Statements -/

/-- The table with a new row. -/
def append (t : Table S) (v : ρ) (hkey : t.findKey (S.key t.nextId v) = none)
    (hcheck : S.check v = true) : Table S where
  rows := t.rows ++ [(t.nextId, v)]
  nextId := t.nextId + 1
  ids_lt_of_sorted := by
    rw [List.pairwise_append]
    refine ⟨t.ids_lt_of_sorted, List.pairwise_singleton _ _, ?_⟩
    intro a ha b hb
    rw [List.mem_singleton] at hb
    exact hb ▸ t.id_lt a ha
  id_lt := by
    intro r hr
    rcases List.mem_append.mp hr with hr | hr
    · exact Nat.lt_succ_of_lt (t.id_lt r hr)
    · rw [List.mem_singleton] at hr
      exact hr ▸ Nat.lt_succ_self _
  keys_nodup := by
    rw [List.map_append, List.nodup_append']
    refine ⟨t.keys_nodup, List.nodup_singleton _, ?_⟩
    intro k hk hk'
    obtain ⟨r, hr, rfl⟩ := List.mem_map.mp hk
    rw [List.map_singleton, List.mem_singleton] at hk'
    exact findKey_eq_none.mp hkey r hr hk'
  checked := by
    intro r hr
    rcases List.mem_append.mp hr with hr | hr
    · exact t.checked r hr
    · rw [List.mem_singleton] at hr
      exact hr ▸ hcheck

/-- `INSERT`. -/
def insert (t : Table S) (v : ρ) : Except Violation (Table S) :=
  if hcheck : S.check v = true then
    if hkey : t.findKey (S.key t.nextId v) = none then .ok (t.append v hkey hcheck)
    else .error .unique
  else .error .check

/-- `DELETE .. WHERE`. -/
def deleteWhere (t : Table S) (p : Nat × ρ → Bool) : Table S where
  rows := t.rows.filter (fun r => !p r)
  nextId := t.nextId
  ids_lt_of_sorted := t.ids_lt_of_sorted.filter _
  id_lt := fun r hr => t.id_lt r (List.mem_of_mem_filter hr)
  keys_nodup := (List.Sublist.map _ List.filter_sublist).nodup t.keys_nodup
  checked := fun r hr => t.checked r (List.mem_of_mem_filter hr)

/-- What an update does to a row. -/
def modifyRow (p : Nat × ρ → Bool) (f : ρ → ρ) (r : Nat × ρ) : Nat × ρ :=
  if p r then (r.1, f r.2) else r

omit [DecidableEq κ] in
@[simp] theorem modifyRow_fst (p : Nat × ρ → Bool) (f : ρ → ρ) (r : Nat × ρ) :
    (modifyRow p f r).1 = r.1 := by
  rw [modifyRow]
  split <;> rfl

/-- An update that keeps the key and the check of the rows it changes. -/
structure Keeps (S : Schema ρ κ) (f : ρ → ρ) : Prop where
  key_eq : ∀ id v, S.key id (f v) = S.key id v
  check_eq : ∀ v, S.check v = true → S.check (f v) = true

omit [DecidableEq κ] in
theorem Keeps.keyOf_modifyRow {f : ρ → ρ} (h : Keeps S f) (p : Nat × ρ → Bool) (r : Nat × ρ) :
    S.keyOf (modifyRow p f r) = S.keyOf r := by
  rw [modifyRow]
  split
  · exact h.key_eq r.1 r.2
  · rfl

/-- `UPDATE .. SET .. WHERE`, of columns outside the constraints. -/
def modifyWhere (t : Table S) (p : Nat × ρ → Bool) (f : ρ → ρ) (hf : Keeps S f) : Table S where
  rows := t.rows.map (modifyRow p f)
  nextId := t.nextId
  ids_lt_of_sorted := by
    rw [List.pairwise_map]
    exact t.ids_lt_of_sorted.imp (fun h => by simpa using h)
  id_lt := by
    intro r' hr'
    obtain ⟨r, hr, rfl⟩ := List.mem_map.mp hr'
    simpa using t.id_lt r hr
  keys_nodup := by
    have hkeys : (t.rows.map (modifyRow p f)).map S.keyOf = t.rows.map S.keyOf := by
      rw [List.map_map]
      exact List.map_congr_left (fun r _ => hf.keyOf_modifyRow p r)
    rw [hkeys]
    exact t.keys_nodup
  checked := by
    intro r' hr'
    obtain ⟨r, hr, rfl⟩ := List.mem_map.mp hr'
    rw [modifyRow]
    split
    · exact hf.check_eq _ (t.checked r hr)
    · exact t.checked r hr

/-- Inserts one by one, until one fails. -/
def insertAll (t : Table S) : List ρ → Except Violation (Table S)
  | [] => .ok t
  | v :: vs =>
    match t.insert v with
    | .ok t' => insertAll t' vs
    | .error e => .error e

/-! ### The rows after a statement -/

variable {t t' : Table S}

theorem insert_ok_iff {v : ρ} : t.insert v = .ok t' ↔
    ∃ (hkey : t.findKey (S.key t.nextId v) = none) (hcheck : S.check v = true),
      t' = t.append v hkey hcheck := by
  rw [insert]
  split_ifs with hcheck hkey
  · constructor
    · intro h
      cases h
      exact ⟨hkey, hcheck, rfl⟩
    · rintro ⟨_, _, rfl⟩
      rfl
  · constructor
    · intro h
      cases h
    · rintro ⟨hkey', _⟩
      exact absurd hkey' hkey
  · constructor
    · intro h
      cases h
    · rintro ⟨_, hcheck', _⟩
      exact absurd hcheck' hcheck

theorem rows_of_insert {v : ρ} (h : t.insert v = .ok t') :
    t'.rows = t.rows ++ [(t.nextId, v)] := by
  obtain ⟨_, _, rfl⟩ := insert_ok_iff.mp h
  rfl

theorem keys_of_insert {v : ρ} (h : t.insert v = .ok t') :
    t'.keys = t.keys ++ [S.key t.nextId v] := by
  rw [keys, rows_of_insert h, List.map_append]
  rfl

theorem mem_of_insert {v : ρ} (h : t.insert v = .ok t') : (t.nextId, v) ∈ t'.rows := by
  rw [rows_of_insert h]
  exact List.mem_append_right _ List.mem_cons_self

/-- An insert that breaks the unique key finds the row that holds the key. -/
theorem exists_of_insert_unique {v : ρ} (h : t.insert v = .error .unique) :
    ∃ r ∈ t.rows, S.keyOf r = S.key t.nextId v := by
  rw [insert] at h
  split_ifs at h with hcheck hkey
  · obtain ⟨r, hr⟩ := Option.ne_none_iff_exists'.mp hkey
    exact ⟨r, findKey_eq_some.mp hr⟩
  · cases h

/-- Inserts that all succeed append their rows in order. -/
theorem content_of_insertAll : ∀ {vs : List ρ} {t t' : Table S}, t.insertAll vs = .ok t' →
    t'.rows.map Prod.snd = t.rows.map Prod.snd ++ vs := by
  intro vs
  induction vs with
  | nil =>
    intro t t' h
    cases h
    simp
  | cons v vs ih =>
    intro t t' h
    rw [insertAll] at h
    split at h
    · rename_i t₁ h₁
      rw [ih h, rows_of_insert h₁]
      simp
    · cases h

theorem nextId_of_insert {v : ρ} (h : t.insert v = .ok t') : t'.nextId = t.nextId + 1 := by
  obtain ⟨_, _, rfl⟩ := insert_ok_iff.mp h
  rfl

theorem nextId_of_insertAll : ∀ {vs : List ρ} {t t' : Table S}, t.insertAll vs = .ok t' →
    t'.nextId = t.nextId + vs.length := by
  intro vs
  induction vs with
  | nil =>
    intro t t' h
    cases h
    rfl
  | cons v vs ih =>
    intro t t' h
    rw [insertAll] at h
    split at h
    · rename_i t₁ h₁
      rw [ih h, nextId_of_insert h₁, List.length_cons]
      omega
    · cases h

/-- Inserts that all succeed give their rows the next ids in order. -/
theorem rows_of_insertAll : ∀ {vs : List ρ} {t t' : Table S}, t.insertAll vs = .ok t' →
    t'.rows = t.rows ++ (List.range' t.nextId vs.length).zip vs := by
  intro vs
  induction vs with
  | nil =>
    intro t t' h
    cases h
    simp
  | cons v vs ih =>
    intro t t' h
    rw [insertAll] at h
    split at h
    · rename_i t₁ h₁
      rw [ih h, rows_of_insert h₁, nextId_of_insert h₁, List.length_cons, List.range'_succ]
      simp
    · cases h

theorem insert_isOk_iff {v : ρ} : (∃ t', t.insert v = .ok t') ↔
    S.check v = true ∧ ∀ r ∈ t.rows, S.keyOf r ≠ S.key t.nextId v := by
  simp only [insert_ok_iff, findKey_eq_none]
  constructor
  · rintro ⟨_, hkey, hcheck, _⟩
    exact ⟨hcheck, hkey⟩
  · rintro ⟨hcheck, hkey⟩
    exact ⟨_, hkey, hcheck, rfl⟩

/-- Rows whose key is their id can always be inserted when they pass the check. -/
theorem insertAll_isOk_of_id {vs : List ρ} {f : Nat → κ} (hf : Function.Injective f)
    (hkey : ∀ i v, S.key i v = f i) (hcheck : ∀ v ∈ vs, S.check v = true) :
    ∀ t : Table S, ∃ t', t.insertAll vs = .ok t' := by
  induction vs with
  | nil => exact fun t => ⟨t, rfl⟩
  | cons v vs ih =>
    intro t
    obtain ⟨hv, hvs⟩ := List.forall_mem_cons.mp hcheck
    have hfresh : ∀ r ∈ t.rows, S.keyOf r ≠ S.key t.nextId v := by
      intro r hr heq
      rw [Schema.keyOf, hkey, hkey] at heq
      exact Nat.ne_of_lt (t.id_lt r hr) (hf heq)
    obtain ⟨t₁, h₁⟩ := insert_isOk_iff.mpr ⟨hv, hfresh⟩
    obtain ⟨t', h'⟩ := ih hvs t₁
    exact ⟨t', by rw [insertAll, h₁]; exact h'⟩

/-- Rows whose key does not depend on the id can be inserted when their keys are
distinct and new. -/
theorem insertAll_isOk_iff {f : ρ → κ} (hkey : ∀ i v, S.key i v = f v)
    (hcheck : ∀ v, S.check v = true) : ∀ {vs : List ρ} {t : Table S},
    (∃ t', t.insertAll vs = .ok t') ↔
      (vs.map f).Nodup ∧ ∀ v ∈ vs, ∀ r ∈ t.rows, S.keyOf r ≠ f v := by
  intro vs
  induction vs with
  | nil => exact fun {t} => ⟨fun _ => ⟨.nil, by simp⟩, fun _ => ⟨t, rfl⟩⟩
  | cons v vs ih =>
    intro t
    rw [List.map_cons, List.nodup_cons, List.forall_mem_cons]
    have hstep : ∀ {t₁ : Table S}, t.insert v = .ok t₁ →
        ((∃ t', t₁.insertAll vs = .ok t') ↔ (vs.map f).Nodup ∧ f v ∉ vs.map f ∧
          ∀ w ∈ vs, ∀ r ∈ t.rows, S.keyOf r ≠ f w) := by
      intro t₁ h₁
      rw [ih]
      refine and_congr_right (fun _ => ?_)
      rw [rows_of_insert h₁]
      constructor
      · intro h
        refine ⟨?_, fun w hw r hr => h w hw r (List.mem_append_left _ hr)⟩
        intro hmem
        obtain ⟨w, hw, hwv⟩ := List.mem_map.mp hmem
        exact h w hw _ (List.mem_append_right _ List.mem_cons_self) ((hkey _ _).trans hwv.symm)
      · rintro ⟨hnot, h⟩ w hw r hr
        rcases List.mem_append.mp hr with hr | hr
        · exact h w hw r hr
        · rw [List.mem_singleton.mp hr]
          intro heq
          exact hnot (List.mem_map.mpr ⟨w, hw, heq.symm.trans (hkey _ _)⟩)
    constructor
    · rintro ⟨t', h⟩
      rw [insertAll] at h
      split at h
      · rename_i t₁ h₁
        obtain ⟨hnodup, hnot, hold⟩ := (hstep h₁).mp ⟨t', h⟩
        obtain ⟨_, hnew⟩ := insert_isOk_iff.mp ⟨t₁, h₁⟩
        exact ⟨⟨hnot, hnodup⟩, fun r hr => hkey t.nextId v ▸ hnew r hr, hold⟩
      · cases h
    · rintro ⟨⟨hnot, hnodup⟩, hnew, hold⟩
      obtain ⟨t₁, h₁⟩ := insert_isOk_iff.mpr ⟨hcheck v, fun r hr => (hkey t.nextId v).symm ▸ hnew r hr⟩
      obtain ⟨t', h'⟩ := (hstep h₁).mpr ⟨hnodup, hnot, hold⟩
      exact ⟨t', by rw [insertAll, h₁]; exact h'⟩

omit [DecidableEq κ] in
theorem mem_deleteWhere {p : Nat × ρ → Bool} {r : Nat × ρ} :
    r ∈ (t.deleteWhere p).rows ↔ r ∈ t.rows ∧ p r = false := by
  rw [deleteWhere, List.mem_filter, Bool.not_eq_true']

omit [DecidableEq κ] in
theorem mem_modifyWhere {p : Nat × ρ → Bool} {f : ρ → ρ} {hf : Keeps S f} {r : Nat × ρ} :
    r ∈ (t.modifyWhere p f hf).rows ↔ ∃ r₀ ∈ t.rows, modifyRow p f r₀ = r := List.mem_map

omit [DecidableEq κ] in
/-- A row keeps its id. -/
theorem modifyRow_mem {p : Nat × ρ → Bool} {f : ρ → ρ} {hf : Keeps S f} {r : Nat × ρ}
    (hr : r ∈ t.rows) : (r.1, (modifyRow p f r).2) ∈ (t.modifyWhere p f hf).rows :=
  mem_modifyWhere.mpr ⟨r, hr, Prod.ext (modifyRow_fst p f r) rfl⟩

omit [DecidableEq κ] in
/-- An update by id leaves the other rows. -/
theorem mem_modifyWhere_of_ne {f : ρ → ρ} {hf : Keeps S f} {id : Nat} {r : Nat × ρ} (h : r.1 ≠ id) :
    r ∈ (t.modifyWhere (fun r => r.1 = id) f hf).rows ↔ r ∈ t.rows := by
  rw [mem_modifyWhere]
  constructor
  · rintro ⟨r₀, hr₀, rfl⟩
    rw [modifyRow_fst] at h
    rwa [modifyRow, if_neg (by simpa using h)]
  · intro hr
    exact ⟨r, hr, by rw [modifyRow, if_neg (by simpa using h)]⟩

omit [DecidableEq κ] in
theorem mem_modifyWhere_of_eq {f : ρ → ρ} {hf : Keeps S f} {id : Nat} {v : ρ} :
    (id, v) ∈ (t.modifyWhere (fun r => r.1 = id) f hf).rows ↔ ∃ w, (id, w) ∈ t.rows ∧ v = f w := by
  rw [mem_modifyWhere]
  constructor
  · rintro ⟨⟨i, w⟩, hr₀, heq⟩
    have hid : i = id := by
      have hfst := modifyRow_fst (fun r => r.1 = id) f (i, w)
      rw [heq] at hfst
      exact hfst.symm
    subst hid
    rw [modifyRow, if_pos (by simp)] at heq
    exact ⟨w, hr₀, (Prod.mk.inj heq).2.symm⟩
  · rintro ⟨w, hw, rfl⟩
    exact ⟨(id, w), hw, by rw [modifyRow, if_pos (by simp)]⟩

omit [DecidableEq κ] in
theorem ids_modifyWhere (t : Table S) (p : Nat × ρ → Bool) (f : ρ → ρ) (hf : Keeps S f) :
    (t.modifyWhere p f hf).rows.map Prod.fst = t.rows.map Prod.fst := by
  rw [modifyWhere, List.map_map]
  exact List.map_congr_left (fun r _ => modifyRow_fst p f r)

omit [DecidableEq κ] in
theorem keys_modifyWhere (t : Table S) (p : Nat × ρ → Bool) (f : ρ → ρ) (hf : Keeps S f) :
    (t.modifyWhere p f hf).keys = t.keys := by
  rw [keys, modifyWhere, List.map_map]
  exact List.map_congr_left (fun r _ => hf.keyOf_modifyRow p r)

/-! ### The row of a key -/

theorem findKey_insert {v : ρ} (h : t.insert v = .ok t') (k : κ) :
    t'.findKey k = if S.key t.nextId v = k then some (t.nextId, v) else t.findKey k := by
  obtain ⟨hnew, -, -⟩ := insert_ok_iff.mp h
  rw [findKey, rows_of_insert h, List.find?_append, List.find?_singleton]
  split_ifs with hk hkey hkey
  · subst hkey
    rw [findKey] at hnew
    rw [hnew]
    rfl
  · exact absurd (of_decide_eq_true hk) hkey
  · exact absurd (decide_eq_true hkey) hk
  · exact Option.or_none

theorem findKey_modifyWhere (t : Table S) (p : Nat × ρ → Bool) (f : ρ → ρ) (hf : Keeps S f) (k : κ) :
    (t.modifyWhere p f hf).findKey k = (t.findKey k).map (modifyRow p f) := by
  rw [findKey, modifyWhere, List.find?_map, findKey]
  congr 2
  funext r
  simp only [Function.comp_apply, hf.keyOf_modifyRow]

end Table

/-! ### Ids over time -/

namespace Table

variable {S : Schema ρ κ} {t t' t'' : Table S}

/-- Of the ids that `t` has given, only those of its rows are left. -/
structure NoReuse (t t' : Table S) : Prop where
  nextId_le : t.nextId ≤ t'.nextId
  old : ∀ r ∈ t'.rows, r.1 < t.nextId → ∃ r₀ ∈ t.rows, r₀.1 = r.1

theorem NoReuse.refl (t : Table S) : NoReuse t t := ⟨Nat.le_refl _, fun r hr _ => ⟨r, hr, rfl⟩⟩

theorem NoReuse.trans (h : NoReuse t t') (h' : NoReuse t' t'') : NoReuse t t'' := by
  refine ⟨Nat.le_trans h.nextId_le h'.nextId_le, ?_⟩
  intro r hr hlt
  obtain ⟨r₁, hr₁, hid⟩ := h'.old r hr (Nat.lt_of_lt_of_le hlt h.nextId_le)
  obtain ⟨r₀, hr₀, hid₀⟩ := h.old r₁ hr₁ (hid ▸ hlt)
  exact ⟨r₀, hr₀, hid₀.trans hid⟩

theorem NoReuse.deleteWhere (t : Table S) (p : Nat × ρ → Bool) : NoReuse t (t.deleteWhere p) :=
  ⟨Nat.le_refl _, fun r hr _ => ⟨r, (mem_deleteWhere.mp hr).1, rfl⟩⟩

/-- And the rows of `t` are all left. -/
structure Grows (t t' : Table S) : Prop extends NoReuse t t' where
  kept : ∀ r ∈ t.rows, ∃ r' ∈ t'.rows, r'.1 = r.1

theorem Grows.refl (t : Table S) : Grows t t := ⟨.refl t, fun r hr => ⟨r, hr, rfl⟩⟩

theorem Grows.of_insert [DecidableEq κ] {v : ρ} (h : t.insert v = .ok t') : Grows t t' := by
  have hrows := rows_of_insert h
  refine ⟨⟨by rw [nextId_of_insert h]; exact Nat.le_succ _, ?_⟩, ?_⟩
  · intro r hr hlt
    rw [hrows, List.mem_append, List.mem_singleton] at hr
    obtain hr | rfl := hr
    · exact ⟨r, hr, rfl⟩
    · exact absurd hlt (Nat.lt_irrefl _)
  · intro r hr
    exact ⟨r, hrows ▸ List.mem_append_left _ hr, rfl⟩

theorem Grows.modifyWhere (t : Table S) (p : Nat × ρ → Bool) (f : ρ → ρ) (hf : Keeps S f) :
    Grows t (t.modifyWhere p f hf) := by
  refine ⟨⟨Nat.le_refl _, ?_⟩, ?_⟩
  · intro r hr _
    obtain ⟨r₀, hr₀, rfl⟩ := mem_modifyWhere.mp hr
    exact ⟨r₀, hr₀, (modifyRow_fst p f r₀).symm⟩
  · intro r hr
    exact ⟨modifyRow p f r, mem_modifyWhere.mpr ⟨r, hr, rfl⟩, modifyRow_fst p f r⟩

end Table

end Sql

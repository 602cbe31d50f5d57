/-
A cache whose entries expire one by one.

An entry has a deadline, set by a policy: `afterCreate` when its key is fresh,
`afterUpdate` when a live entry is written over.  The default of `afterUpdate`
keeps the time the live entry had left.  A read returns an entry only before
its deadline.  Times are natural numbers of a unit the caller chooses:

* `get_eq_some` — what a read returns;
* `lifetime_create`, `lifetime_update` — the deadline a write sets;
* `forall_lookup_insert`, `forall_lookup_erase` — a property of all entries of a
  map, after a write and after a removal;
* `All.insert`, `All.evict` — the same for the cache.
-/
import Mathlib.Data.List.AList

namespace ExpiringCache

variable {κ ν : Type}

/-- A policy: how long an entry may live, from its creation and from an update
of an entry with the given time left.  `none` is for ever. -/
structure Expiry (κ ν : Type) where
  afterCreate : κ → ν → Nat → Option Nat
  afterUpdate : κ → ν → Nat → Option Nat → Option Nat := fun _ _ _ remaining => remaining

structure Entry (ν : Type) where
  value : ν
  deadline : Option Nat
  deriving DecidableEq, Repr

/-- The entry may be served at `now`. -/
def Entry.live (e : Entry ν) (now : Nat) : Bool :=
  match e.deadline with
  | none => true
  | some d => now < d

abbrev Cache (κ ν : Type) := AList (fun _ : κ => Entry ν)

variable [DecidableEq κ]

/-- The live entry of a key. -/
def find (c : Cache κ ν) (now : Nat) (k : κ) : Option (Entry ν) :=
  (c.lookup k).filter (·.live now)

/-- `get`: the value of a live entry. -/
def get (c : Cache κ ν) (now : Nat) (k : κ) : Option ν := (find c now k).map (·.value)

/-- How long a written entry may live. -/
def lifetime (policy : Expiry κ ν) (c : Cache κ ν) (now : Nat) (k : κ) (v : ν) : Option Nat :=
  match find c now k with
  | none => policy.afterCreate k v now
  | some e => policy.afterUpdate k v now (e.deadline.map (· - now))

/-- `insert`: a write at `now`. -/
def insert (policy : Expiry κ ν) (c : Cache κ ν) (now : Nat) (k : κ) (v : ν) : Cache κ ν :=
  AList.insert k ⟨v, (lifetime policy c now k v).map (now + ·)⟩ c

/-- `invalidate_all`. -/
def invalidateAll (_ : Cache κ ν) : Cache κ ν := ∅

/-- An entry goes, of age or for want of room. -/
def evict (c : Cache κ ν) (k : κ) : Cache κ ν := c.erase k

/-! ### What a read finds -/

theorem find_eq_some {c : Cache κ ν} {now : Nat} {k : κ} {e : Entry ν} :
    find c now k = some e ↔ c.lookup k = some e ∧ e.live now = true := by
  rw [find, Option.filter_eq_some_iff]

theorem get_eq_some {c : Cache κ ν} {now : Nat} {k : κ} {v : ν} :
    get c now k = some v ↔ ∃ e, c.lookup k = some e ∧ e.live now = true ∧ e.value = v := by
  rw [get, Option.map_eq_some_iff]
  constructor
  · rintro ⟨e, he, rfl⟩
    obtain ⟨hlookup, hlive⟩ := find_eq_some.mp he
    exact ⟨e, hlookup, hlive, rfl⟩
  · rintro ⟨e, hlookup, hlive, rfl⟩
    exact ⟨e, find_eq_some.mpr ⟨hlookup, hlive⟩, rfl⟩

theorem live_of_deadline {e : Entry ν} {now d : Nat} (hd : e.deadline = some d) :
    e.live now = true ↔ now < d := by
  rw [Entry.live, hd]
  exact decide_eq_true_iff

/-! ### The deadline a write sets -/

theorem lookup_insert (policy : Expiry κ ν) (c : Cache κ ν) (now : Nat) (k : κ) (v : ν) :
    AList.lookup k (insert policy c now k v) =
      some ⟨v, (lifetime policy c now k v).map (now + ·)⟩ := AList.lookup_insert c

theorem lookup_insert_of_ne (policy : Expiry κ ν) (c : Cache κ ν) (now : Nat) {k k' : κ} (v : ν)
    (h : k' ≠ k) : AList.lookup k' (insert policy c now k v) = c.lookup k' :=
  AList.lookup_insert_ne h

/-- Over a live entry, the default policy keeps the deadline. -/
theorem lifetime_update {policy : Expiry κ ν} {c : Cache κ ν} {now d : Nat} {k : κ} {v : ν}
    {e : Entry ν} (hkeep : ∀ k v now r, policy.afterUpdate k v now r = r)
    (he : find c now k = some e) (hd : e.deadline = some d) :
    (lifetime policy c now k v).map (now + ·) = some d := by
  have hlive : now < d := (live_of_deadline hd).mp (find_eq_some.mp he).2
  rw [lifetime, he]
  show (policy.afterUpdate k v now (e.deadline.map (· - now))).map (now + ·) = some d
  rw [hkeep, hd, Option.map_some, Option.map_some, Nat.add_sub_cancel' (Nat.le_of_lt hlive)]

/-- On a fresh key the policy's creation time is counted from the write. -/
theorem lifetime_create {policy : Expiry κ ν} {c : Cache κ ν} {now : Nat} {k : κ} {v : ν}
    (h : find c now k = none) : lifetime policy c now k v = policy.afterCreate k v now := by
  rw [lifetime, h]

/-! ### Properties of all entries -/

/-- What holds of every entry of a map and of a new one holds after the insert. -/
theorem forall_lookup_insert {α : Type} {P : κ → α → Prop} {m : AList (fun _ : κ => α)} {k : κ}
    {a : α} (hall : ∀ k' a', m.lookup k' = some a' → P k' a') (hnew : P k a) :
    ∀ k' a', (m.insert k a).lookup k' = some a' → P k' a' := by
  intro k' a' h
  by_cases hk : k' = k
  · subst hk
    rw [AList.lookup_insert, Option.some.injEq] at h
    exact h ▸ hnew
  · rw [AList.lookup_insert_ne hk] at h
    exact hall k' a' h

theorem forall_lookup_erase {α : Type} {P : κ → α → Prop} {m : AList (fun _ : κ => α)} {k : κ}
    (hall : ∀ k' a', m.lookup k' = some a' → P k' a') :
    ∀ k' a', (m.erase k).lookup k' = some a' → P k' a' := by
  intro k' a' h
  by_cases hk : k' = k
  · subst hk
    rw [AList.lookup_erase] at h
    cases h
  · rw [AList.lookup_erase_ne hk] at h
    exact hall k' a' h

/-- `P` holds of every entry held, live or not. -/
def All (P : κ → Entry ν → Prop) (c : Cache κ ν) : Prop := ∀ k e, c.lookup k = some e → P k e

theorem All.empty (P : κ → Entry ν → Prop) : All P (∅ : Cache κ ν) := by
  intro k e h
  simp at h

theorem All.insert {P : κ → Entry ν → Prop} {policy : Expiry κ ν} {c : Cache κ ν} {now : Nat}
    {k : κ} {v : ν} (hall : All P c)
    (hnew : P k ⟨v, (lifetime policy c now k v).map (now + ·)⟩) :
    All P (insert policy c now k v) := forall_lookup_insert hall hnew

theorem All.evict {P : κ → Entry ν → Prop} {c : Cache κ ν} (hall : All P c) (k : κ) :
    All P (evict c k) := forall_lookup_erase hall

end ExpiringCache

/-
The API keys of the config sync (`storage/api_keys.rs`, `web/apikeys.rs` and the API-key part
of `web/auth.rs`).

A key is minted on the admin page, which shows it once, as `id.token`; the table keeps the
hash of the token.  A request carries the key, and a key that is revoked stays in the list.
Times are seconds since the epoch, and each query of a request may fail.

* `findKey_insert`, `findKey_revoke`, `findKey_touch` — the row of an id after each statement;
* `Life` — what the row of a key says of all that happened since it was minted;
* `inv_step` — what every event keeps of the rows and the record of events;
* `api_key_lifetime` — which credentials authenticate, and what the list says, after any run.
-/
import Sagittarius.ConfigSync
import Sagittarius.Headers
import Sagittarius.Text
import Sagittarius.Transition

open Storage

namespace Storage

/-- A row of `api_keys`. -/
structure ApiKeyRow where
  id : String
  tokenHash : String
  label : String
  createdAt : Int
  lastUsedAt : Option Int
  revokedAt : Option Int
  deriving DecidableEq, Repr

/-- `ApiKeyRecord`. -/
structure ApiKeyRecord where
  id : String
  label : String
  createdAt : Int
  lastUsedAt : Option Int
  revokedAt : Option Int
  deriving DecidableEq, Repr

/-- `ActiveApiKey`. -/
structure ActiveApiKey where
  tokenHash : String
  lastUsedAt : Option Int
  deriving DecidableEq, Repr

/-- `NewApiKey`. -/
structure NewApiKey where
  id : String
  tokenHash : String
  label : String
  deriving DecidableEq, Repr

/-- The id is the primary key. -/
def apiKeySchema : Sql.Schema ApiKeyRow String := ⟨fun _ row => row.id, fun _ => true⟩

abbrev ApiKeyTable := Sql.Table apiKeySchema

namespace ApiKeys

/-- `SqliteApiKeyRepo::insert`; `created_at` is the database's own clock. -/
def insert (t : ApiKeyTable) (now : Int) (key : NewApiKey) : Except Sql.Violation ApiKeyTable :=
  Sql.Table.insert t ⟨key.id, key.tokenHash, key.label, now, none, none⟩

/-- The row of an id. -/
def row (t : ApiKeyTable) (id : String) : Option ApiKeyRow := (t.findKey id).map Prod.snd

/-- `SqliteApiKeyRepo::find_active`. -/
def findActive (t : ApiKeyTable) (id : String) : Option ActiveApiKey :=
  ((row t id).filter (fun r => r.revokedAt.isNone)).map (fun r => ⟨r.tokenHash, r.lastUsedAt⟩)

def ApiKeyRow.record (r : ApiKeyRow) : ApiKeyRecord :=
  ⟨r.id, r.label, r.createdAt, r.lastUsedAt, r.revokedAt⟩

/-- `SqliteApiKeyRepo::list`: the newest first, and by id. -/
def list (t : ApiKeyTable) : List ApiKeyRecord :=
  (t.rows.map (fun r => ApiKeyRow.record r.2)).mergeSort
    (fun a b => b.createdAt < a.createdAt || (a.createdAt = b.createdAt && a.id ≤ b.id))

/-- `SqliteApiKeyRepo::revoke`. -/
def revoke (t : ApiKeyTable) (id : String) (now : Int) : ApiKeyTable :=
  t.modifyWhere (fun r => r.2.id = id && r.2.revokedAt.isNone)
    (fun r => { r with revokedAt := some now }) ⟨fun _ _ => rfl, fun _ _ => rfl⟩

/-- `SqliteApiKeyRepo::touch_last_used`. -/
def touchLastUsed (t : ApiKeyTable) (id : String) (now : Int) : ApiKeyTable :=
  t.modifyWhere (fun r => r.2.id = id) (fun r => { r with lastUsedAt := some now })
    ⟨fun _ _ => rfl, fun _ _ => rfl⟩

variable {t t' : ApiKeyTable}

theorem row_id {id : String} {r : ApiKeyRow} (h : row t id = some r) : r.id = id := by
  obtain ⟨⟨i, r'⟩, hfind, rfl⟩ := Option.map_eq_some_iff.mp h
  exact (Sql.Table.findKey_eq_some.mp hfind).2

theorem row_insert {now : Int} {key : NewApiKey} (h : insert t now key = .ok t') (id : String) :
    row t' id = if key.id = id then some ⟨key.id, key.tokenHash, key.label, now, none, none⟩
      else row t id := by
  rw [row, Sql.Table.findKey_insert h id, row]
  show Option.map Prod.snd (if key.id = id then _ else _) = _
  split_ifs <;> rfl

/-- A key is only inserted under an id that is free. -/
theorem row_none_of_insert {now : Int} {key : NewApiKey} (h : insert t now key = .ok t') :
    row t key.id = none := by
  obtain ⟨hkey, -, -⟩ := Sql.Table.insert_ok_iff.mp h
  rw [row, Option.map_eq_none_iff]
  exact hkey

theorem row_revoke (t : ApiKeyTable) (id : String) (now : Int) (id' : String) :
    row (revoke t id now) id' = (row t id').map (fun r =>
      if id' = id then { r with revokedAt := r.revokedAt.or (some now) } else r) := by
  rw [row, revoke, Sql.Table.findKey_modifyWhere]
  cases hfind : t.findKey id' with
  | none =>
    rw [row, hfind]
    rfl
  | some r =>
    have hid : r.2.id = id' := (Sql.Table.findKey_eq_some.mp hfind).2
    rw [row, hfind]
    obtain ⟨i, r⟩ := r
    obtain ⟨rid, tokenHash, label, createdAt, lastUsedAt, revokedAt⟩ := r
    subst hid
    by_cases hid : rid = id <;> cases revokedAt <;> simp [Sql.Table.modifyRow, hid]

theorem row_touch (t : ApiKeyTable) (id : String) (now : Int) (id' : String) :
    row (touchLastUsed t id now) id' = (row t id').map (fun r =>
      if id' = id then { r with lastUsedAt := some now } else r) := by
  rw [row, touchLastUsed, Sql.Table.findKey_modifyWhere]
  cases hfind : t.findKey id' with
  | none =>
    rw [row, hfind]
    rfl
  | some r =>
    have hid : r.2.id = id' := (Sql.Table.findKey_eq_some.mp hfind).2
    rw [row, hfind]
    obtain ⟨i, r⟩ := r
    subst hid
    by_cases hid : r.id = id <;> simp [Sql.Table.modifyRow, hid]

theorem row_written (t : ApiKeyTable) (id : String) (now : Int) (written : Bool) (id' : String) :
    row (if written then touchLastUsed t id now else t) id' = (row t id').map (fun r =>
      if id' = id then if written then { r with lastUsedAt := some now } else r else r) := by
  cases written with
  | true =>
    rw [if_pos rfl]
    exact row_touch t id now id'
  | false =>
    rw [if_neg Bool.false_ne_true]
    cases row t id' <;> simp

theorem findActive_eq_some {id : String} {active : ActiveApiKey} :
    findActive t id = some active ↔
      ∃ r, row t id = some r ∧ r.revokedAt = none ∧ active = ⟨r.tokenHash, r.lastUsedAt⟩ := by
  rw [findActive, Option.map_eq_some_iff]
  refine exists_congr (fun r => ?_)
  rw [Option.filter_eq_some_iff, Option.isNone_iff_eq_none, and_assoc]
  exact and_congr_right (fun _ => and_congr_right (fun _ => eq_comm))

theorem mem_list {record : ApiKeyRecord} :
    record ∈ list t ↔ ∃ r, row t record.id = some r ∧ ApiKeyRow.record r = record := by
  rw [list, List.mem_mergeSort, List.mem_map]
  constructor
  · rintro ⟨⟨i, r⟩, hr, rfl⟩
    refine ⟨r, ?_, rfl⟩
    rw [row, Option.map_eq_some_iff]
    exact ⟨(i, r), Sql.Table.findKey_eq_some.mpr ⟨hr, rfl⟩, rfl⟩
  · rintro ⟨r, hr, rfl⟩
    obtain ⟨⟨i, r'⟩, hfind, rfl⟩ := Option.map_eq_some_iff.mp hr
    exact ⟨(i, r'), (Sql.Table.findKey_eq_some.mp hfind).1, rfl⟩

end ApiKeys

end Storage

namespace Web

open Sync (toHex mem_toHex)

/-- `API_KEY_TOUCH_THRESHOLD_SECS`. -/
def API_KEY_TOUCH_THRESHOLD_SECS : Int := 300

/-- `MintedApiKey`. -/
structure MintedApiKey where
  plaintext : String
  row : NewApiKey
  deriving DecidableEq, Repr

/-- `MintedApiKey::mint`, from its random bytes and the hash of tokens. -/
def MintedApiKey.mint (hash : String → String) (idBytes tokenBytes : List UInt8) (label : String) :
    MintedApiKey :=
  ⟨toHex idBytes ++ "." ++ toHex tokenBytes, ⟨toHex idBytes, hash (toHex tokenBytes), label⟩⟩

/-- `bearer.token().split_once('.')`. -/
def splitCredential (credential : String) : Option (String × String) :=
  (splitOnce '.' credential.toList).map (fun p => (String.ofList p.1, String.ofList p.2))

/-- Whether a use is written down. -/
def stale (now : Int) (lastUsedAt : Option Int) : Bool :=
  lastUsedAt.all (fun t => now - t > API_KEY_TOUCH_THRESHOLD_SECS)

/-- `AppState::authenticate_api_key`, from the bearer token on. -/
def authenticateApiKey (hash : String → String) (findFails touchFails : Bool) (now : Int)
    (credential : Option String) (t : ApiKeyTable) : Option String × ApiKeyTable :=
  match credential.bind splitCredential with
  | none => (none, t)
  | some (id, token) =>
    match if findFails then none else ApiKeys.findActive t id with
    | none => (none, t)
    | some active =>
      if !ctEq (hash token) active.tokenHash then (none, t)
      else
        (some id, if stale now active.lastUsedAt && !touchFails then ApiKeys.touchLastUsed t id now
          else t)

/-- `AppState::apikey_create`, on the table: without a label there is no key. -/
def apikeyCreate (hash : String → String) (now : Int) (idBytes tokenBytes : List UInt8)
    (label : String) (t : ApiKeyTable) : Option (MintedApiKey × ApiKeyTable) :=
  if Text.trim label = "" then none
  else
    let minted := MintedApiKey.mint hash idBytes tokenBytes (Text.trim label)
    match ApiKeys.insert t now minted.row with
    | .ok t => some (minted, t)
    | .error _ => none

theorem splitOnce_append {sep : Char} {as bs : List Char} (h : sep ∉ as) :
    splitOnce sep (as ++ sep :: bs) = some (as, bs) := by
  induction as with
  | nil => exact if_pos rfl
  | cons a as ih =>
    obtain ⟨hne, hrest⟩ := not_or.mp (mt List.mem_cons.mpr h)
    rw [List.cons_append, splitOnce, if_neg (Ne.symm hne), ih hrest]
    rfl

/-- What a request can do: nothing, or authenticate as a live key with this token. -/
theorem authenticateApiKey_cases (hash : String → String) (findFails touchFails : Bool) (now : Int)
    (credential : Option String) (t : ApiKeyTable) :
    authenticateApiKey hash findFails touchFails now credential t = (none, t) ∨
    ∃ id token r, credential.bind splitCredential = some (id, token) ∧
      ApiKeys.row t id = some r ∧ r.revokedAt = none ∧ hash token = r.tokenHash ∧
      authenticateApiKey hash findFails touchFails now credential t = (some id,
        if stale now r.lastUsedAt && !touchFails then ApiKeys.touchLastUsed t id now else t) := by
  rw [authenticateApiKey]
  cases hsplit : credential.bind splitCredential with
  | none => exact .inl rfl
  | some p =>
    obtain ⟨id, token⟩ := p
    dsimp only
    split_ifs with hfails
    · exact .inl rfl
    · cases hfind : ApiKeys.findActive t id with
      | none => exact .inl rfl
      | some active =>
        obtain ⟨r, hrow, hlive, rfl⟩ := ApiKeys.findActive_eq_some.mp hfind
        cases heq : ctEq (hash token) r.tokenHash with
        | false =>
          left
          dsimp only
          rw [heq]
          rfl
        | true =>
          right
          refine ⟨id, token, r, rfl, hrow, hlive, ctEq_iff.mp heq, ?_⟩
          dsimp only
          rw [heq]
          rfl

theorem authenticateApiKey_of_live {hash : String → String} {touchFails : Bool} {now : Int}
    {credential : String} {t : ApiKeyTable} {id token : String} {r : ApiKeyRow}
    (hsplit : splitCredential credential = some (id, token)) (hrow : ApiKeys.row t id = some r)
    (hlive : r.revokedAt = none) (htoken : hash token = r.tokenHash) :
    (authenticateApiKey hash false touchFails now (some credential) t).1 = some id := by
  rw [authenticateApiKey, Option.bind_some, hsplit]
  dsimp only
  rw [if_neg Bool.false_ne_true, ApiKeys.findActive_eq_some.mpr ⟨r, hrow, hlive, rfl⟩]
  dsimp only
  rw [ctEq_iff.mpr htoken]
  rfl

theorem apikeyCreate_eq_some {hash : String → String} {now : Int} {idBytes tokenBytes : List UInt8}
    {label : String} {t t' : ApiKeyTable} {minted : MintedApiKey}
    (h : apikeyCreate hash now idBytes tokenBytes label t = some (minted, t')) :
    minted = MintedApiKey.mint hash idBytes tokenBytes (Text.trim label) ∧
      ApiKeys.insert t now minted.row = .ok t' := by
  rw [apikeyCreate] at h
  split_ifs at h
  dsimp only at h
  split at h
  · rename_i t₁ hinsert
    cases h
    exact ⟨rfl, hinsert⟩
  · cases h

/-- **The key that is shown** is taken apart as it was put together. -/
theorem splitCredential_mint (hash : String → String) (idBytes tokenBytes : List UInt8)
    (label : String) : splitCredential (MintedApiKey.mint hash idBytes tokenBytes label).plaintext =
      some (toHex idBytes, toHex tokenBytes) := by
  have hdot : '.' ∉ (toHex idBytes).toList := fun hmem => absurd (mem_toHex hmem) (by decide)
  have hlist : (MintedApiKey.mint hash idBytes tokenBytes label).plaintext.toList =
      (toHex idBytes).toList ++ '.' :: (toHex tokenBytes).toList := by
    rw [MintedApiKey.mint]
    simp [String.toList_append]
  rw [splitCredential, hlist, splitOnce_append hdot, Option.map_some, String.ofList_toList,
    String.ofList_toList]

/-! ### Runs -/

namespace KeyRuns

/-- What a run keeps on record. -/
inductive Entry where
  | created (id token label : String) (time : Int)
  | revoked (id : String) (time : Int)
  | used (id : String) (time : Int) (touchFails : Bool)
  deriving DecidableEq, Repr

/-- The table, the clock, and the record with the newest entry first. -/
structure State where
  table : ApiKeyTable
  now : Int
  log : List Entry

inductive Event where
  | advance (d : Nat)
  | create (idBytes tokenBytes : List UInt8) (label : String)
  | revoke (id : String)
  | use (credential : Option String) (findFails touchFails : Bool)
  deriving DecidableEq, Repr

/-- One event. -/
def step (hash : String → String) (s : State) : Event → Option State
  | .advance d => some { s with now := s.now + d }
  | .create idBytes tokenBytes label =>
    match apikeyCreate hash s.now idBytes tokenBytes label s.table with
    | none => some s
    | some (minted, table) =>
      some { s with
        table := table
        log := .created minted.row.id (toHex tokenBytes) minted.row.label s.now :: s.log }
  | .revoke id =>
    some { s with table := ApiKeys.revoke s.table id s.now, log := .revoked id s.now :: s.log }
  | .use credential findFails touchFails =>
    let found := authenticateApiKey hash findFails touchFails s.now credential s.table
    some { s with
      table := found.2
      log := (found.1.map (fun id => Entry.used id s.now touchFails)).toList ++ s.log }

/-- No key yet. -/
def start (now : Int) : State := ⟨Sql.Table.empty apiKeySchema, now, []⟩

/-- When a key was revoked, the latest time first. -/
def revocations (id : String) (log : List Entry) : List Int :=
  log.filterMap (fun e =>
    match e with
    | .revoked id' time => if id' = id then some time else none
    | _ => none)

/-- When a key was used, the latest time first. -/
def uses (id : String) (log : List Entry) : List Int :=
  log.filterMap (fun e =>
    match e with
    | .used id' time _ => if id' = id then some time else none
    | _ => none)

/-- Every use of the key was written down. -/
def NoTouchFails (id : String) (log : List Entry) : Prop :=
  ∀ time, Entry.used id time true ∉ log

/-- The row of a key, after what happened since it was minted. -/
structure Life (hash : String → String) (now : Int) (r : ApiKeyRow) (token label : String)
    (time : Int) (newer : List Entry) : Prop where
  tokenHash_eq : r.tokenHash = hash token
  label_eq : r.label = label
  createdAt_eq : r.createdAt = time
  revokedAt_eq : r.revokedAt = (revocations r.id newer).getLast?
  lastUsed_mem : ∀ u, r.lastUsedAt = some u → u ∈ uses r.id newer
  lastUsed_near : NoTouchFails r.id newer → ∀ u, (uses r.id newer).head? = some u →
    ∃ u', r.lastUsedAt = some u' ∧ u - u' ≤ API_KEY_TOUCH_THRESHOLD_SECS ∧ u' ≤ u
  uses_le : ∀ u ∈ uses r.id newer, u ≤ now

/-- The rows are the keys that were minted, each as its life has left it. -/
structure Inv (hash : String → String) (s : State) : Prop where
  life : ∀ newer id token label time older,
    s.log = newer ++ Entry.created id token label time :: older →
      ∃ r, ApiKeys.row s.table id = some r ∧ Life hash s.now r token label time newer
  minted : ∀ id r, ApiKeys.row s.table id = some r → ∃ newer token label time older,
    s.log = newer ++ Entry.created id token label time :: older

variable {hash : String → String} {s s' : State}

theorem inv_start (hash : String → String) (now : Int) : Inv hash (start now) where
  life := by
    intro newer id token label time older h
    exact absurd h.symm (List.append_ne_nil_of_right_ne_nil _ (List.cons_ne_nil _ _))
  minted := by
    intro id r h
    cases h

theorem inv_advance (h : Inv hash s) (d : Nat) : Inv hash { s with now := s.now + d } where
  life := by
    intro newer id token label time older hlog
    obtain ⟨r, hr, hlife⟩ := h.life newer id token label time older hlog
    refine ⟨r, hr, { hlife with uses_le := ?_ }⟩
    intro u hu
    have hle := hlife.uses_le u hu
    show u ≤ s.now + d
    omega
  minted := h.minted

/-- An entry about something else changes nothing of a life. -/
theorem Life.cons {now : Int} {r : ApiKeyRow} {token label : String} {time : Int}
    {newer : List Entry} {e : Entry} (h : Life hash now r token label time newer)
    (hrevocations : revocations r.id (e :: newer) = revocations r.id newer)
    (huses : uses r.id (e :: newer) = uses r.id newer) :
    Life hash now r token label time (e :: newer) where
  tokenHash_eq := h.tokenHash_eq
  label_eq := h.label_eq
  createdAt_eq := h.createdAt_eq
  revokedAt_eq := hrevocations ▸ h.revokedAt_eq
  lastUsed_mem := huses ▸ h.lastUsed_mem
  lastUsed_near := by
    intro hfails
    rw [huses]
    exact h.lastUsed_near (fun t hmem => hfails t (List.mem_cons_of_mem e hmem))
  uses_le := huses ▸ h.uses_le

theorem inv_create {table : ApiKeyTable} {minted : MintedApiKey} {idBytes tokenBytes : List UInt8}
    {label : String} (h : Inv hash s)
    (hcreate : apikeyCreate hash s.now idBytes tokenBytes label s.table = some (minted, table)) :
    Inv hash { s with
      table := table
      log := .created minted.row.id (toHex tokenBytes) minted.row.label s.now :: s.log } := by
  obtain ⟨hminted, hinsert⟩ := apikeyCreate_eq_some hcreate
  have hhash : minted.row.tokenHash = hash (toHex tokenBytes) := by
    rw [hminted]
    rfl
  have hfree := ApiKeys.row_none_of_insert hinsert
  have hrow := ApiKeys.row_insert hinsert
  refine ⟨?_, ?_⟩
  · intro newer id token label' time older hlog
    obtain _ | ⟨e, newer⟩ := newer
    · -- The key that was minted just now.
      cases hlog
      refine ⟨_, (hrow _).trans (if_pos rfl), ?_⟩
      exact ⟨hhash, rfl, rfl, rfl, nofun, fun _ => nofun, nofun⟩
    · obtain ⟨rfl, hold⟩ := List.cons.inj hlog
      obtain ⟨r, hr, hlife⟩ := h.life newer id token label' time older hold
      have hne : minted.row.id ≠ id := by
        rintro rfl
        rw [hfree] at hr
        cases hr
      refine ⟨r, (hrow id).trans ((if_neg hne).trans hr), hlife.cons rfl rfl⟩
  · intro id r hr
    rw [hrow] at hr
    split_ifs at hr with hid
    · subst hid
      exact ⟨[], _, _, _, _, rfl⟩
    · obtain ⟨newer, token, label', time, older, hlog⟩ := h.minted id r hr
      exact ⟨_ :: newer, token, label', time, older, congrArg _ hlog⟩

theorem revocations_cons (id id' : String) (time : Int) (log : List Entry) :
    revocations id (.revoked id' time :: log) =
      if id' = id then time :: revocations id log else revocations id log := by
  rw [revocations, List.filterMap_cons]
  by_cases hid : id' = id
  · simp only [if_pos hid]
    rfl
  · simp only [if_neg hid]
    rfl

theorem uses_cons (id id' : String) (time : Int) (touchFails : Bool) (log : List Entry) :
    uses id (Entry.used id' time touchFails :: log) =
      if id' = id then time :: uses id log else uses id log := by
  rw [uses, List.filterMap_cons]
  by_cases hid : id' = id
  · simp only [if_pos hid]
    rfl
  · simp only [if_neg hid]
    rfl

theorem Life.revoke {now : Int} {r : ApiKeyRow} {token label : String} {time : Int}
    {newer : List Entry} (h : Life hash now r token label time newer) :
    Life hash now { r with revokedAt := r.revokedAt.or (some now) } token label time
      (.revoked r.id now :: newer) where
  tokenHash_eq := h.tokenHash_eq
  label_eq := h.label_eq
  createdAt_eq := h.createdAt_eq
  revokedAt_eq := by
    -- The first time stays.
    show r.revokedAt.or (some now) = (revocations r.id (.revoked r.id now :: newer)).getLast?
    rw [revocations_cons, if_pos rfl, h.revokedAt_eq, List.getLast?_cons]
    cases (revocations r.id newer).getLast? <;> rfl
  lastUsed_mem := h.lastUsed_mem
  lastUsed_near := fun hfails =>
    h.lastUsed_near (fun t hmem => hfails t (List.mem_cons_of_mem _ hmem))
  uses_le := h.uses_le

theorem Life.use {now : Int} {r : ApiKeyRow} {token label : String} {time : Int}
    {newer : List Entry} (h : Life hash now r token label time newer) (touchFails : Bool) :
    Life hash now (if stale now r.lastUsedAt && !touchFails then { r with lastUsedAt := some now }
      else r) token label time (.used r.id now touchFails :: newer) := by
  have huses : uses r.id (.used r.id now touchFails :: newer) = now :: uses r.id newer :=
    (uses_cons _ _ _ _ _).trans (if_pos rfl)
  have hle : ∀ u ∈ now :: uses r.id newer, u ≤ now := by
    intro u hu
    obtain rfl | hu := List.mem_cons.mp hu
    · exact le_refl _
    · exact h.uses_le u hu
  split_ifs with hwrite
  · refine ⟨h.tokenHash_eq, h.label_eq, h.createdAt_eq, h.revokedAt_eq, ?_, ?_, ?_⟩
    · intro u hu
      obtain rfl := Option.some.inj hu
      show now ∈ uses r.id _
      rw [huses]
      exact List.mem_cons_self
    · intro _ u hu
      change (uses r.id _).head? = some u at hu
      rw [huses] at hu
      obtain rfl := Option.some.inj hu
      exact ⟨now, rfl, by rw [API_KEY_TOUCH_THRESHOLD_SECS]; omega, le_refl _⟩
    · show ∀ u ∈ uses r.id _, _
      rw [huses]
      exact hle
  · refine ⟨h.tokenHash_eq, h.label_eq, h.createdAt_eq, h.revokedAt_eq, ?_, ?_, ?_⟩
    · intro u hu
      rw [huses]
      exact List.mem_cons_of_mem _ (h.lastUsed_mem u hu)
    · intro hfails u hu
      rw [huses] at hu
      obtain rfl := Option.some.inj hu
      cases touchFails with
      | true => exact absurd List.mem_cons_self (hfails now)
      | false =>
        -- The last stamp is recent enough.
        rw [Bool.not_false, Bool.and_true, stale] at hwrite
        cases hlast : r.lastUsedAt with
        | none =>
          rw [hlast] at hwrite
          exact absurd rfl hwrite
        | some u' =>
          rw [hlast, Option.all_some, decide_eq_true_eq] at hwrite
          refine ⟨u', rfl, by omega, h.uses_le u' (h.lastUsed_mem u' hlast)⟩
    · rw [huses]
      exact hle

theorem inv_revoke (h : Inv hash s) (id : String) :
    Inv hash { s with
      table := ApiKeys.revoke s.table id s.now, log := .revoked id s.now :: s.log } := by
  refine ⟨?_, ?_⟩
  · intro newer id' token label time older hlog
    obtain _ | ⟨e, newer⟩ := newer
    · cases hlog
    · obtain ⟨rfl, hold⟩ := List.cons.inj hlog
      obtain ⟨r, hr, hlife⟩ := h.life newer id' token label time older hold
      have hid := ApiKeys.row_id hr
      refine ⟨_, (ApiKeys.row_revoke s.table id s.now id').trans (congrArg _ hr), ?_⟩
      dsimp only
      split_ifs with heq
      · obtain rfl : r.id = id := hid.trans heq
        exact hlife.revoke
      · refine hlife.cons ((revocations_cons _ _ _ _).trans (if_neg ?_)) rfl
        rw [hid]
        exact Ne.symm heq
  · intro id' r hr
    rw [ApiKeys.row_revoke] at hr
    obtain ⟨r₀, hr₀, -⟩ := Option.map_eq_some_iff.mp hr
    obtain ⟨newer, token, label, time, older, hlog⟩ := h.minted id' r₀ hr₀
    exact ⟨_ :: newer, token, label, time, older, congrArg _ hlog⟩

theorem inv_use (h : Inv hash s) (credential : Option String) (findFails touchFails : Bool)
    {found : Option String × ApiKeyTable}
    (hfound : authenticateApiKey hash findFails touchFails s.now credential s.table = found) :
    Inv hash { s with
      table := found.2
      log := (found.1.map (fun id => Entry.used id s.now touchFails)).toList ++ s.log } := by
  obtain hnone | ⟨id, token, r₀, -, hrow₀, -, -, hsome⟩ :=
    authenticateApiKey_cases hash findFails touchFails s.now credential s.table
  · rw [hnone] at hfound
    subst hfound
    exact h
  · rw [hsome] at hfound
    subst hfound
    have hrows := ApiKeys.row_written s.table id s.now (stale s.now r₀.lastUsedAt && !touchFails)
    refine ⟨?_, ?_⟩
    · intro newer id' token' label time older hlog
      obtain _ | ⟨e, newer⟩ := newer
      · cases hlog
      · obtain ⟨rfl, hold⟩ := List.cons.inj hlog
        obtain ⟨r, hr, hlife⟩ := h.life newer id' token' label time older hold
        have hid := ApiKeys.row_id hr
        refine ⟨_, (hrows id').trans (congrArg _ hr), ?_⟩
        dsimp only
        -- Only the key that was used is touched, and only when its last use is old.
        by_cases heq : id' = id
        · subst heq
          rw [if_pos rfl]
          obtain rfl : r = r₀ := Option.some.inj (hr.symm.trans hrow₀)
          exact hid ▸ hlife.use touchFails
        · rw [if_neg heq]
          refine hlife.cons rfl ((uses_cons _ _ _ _ _).trans (if_neg ?_))
          rw [hid]
          exact Ne.symm heq
    · intro id' r hr
      obtain ⟨r₁, hr₁, -⟩ := Option.map_eq_some_iff.mp ((hrows id').symm.trans hr)
      obtain ⟨newer, token', label, time, older, hlog⟩ := h.minted id' r₁ hr₁
      exact ⟨_ :: newer, token', label, time, older, congrArg _ hlog⟩

/-- **One event** keeps the rows true to the record. -/
theorem inv_step {e : Event} (h : Inv hash s) (hstep : step hash s e = some s') : Inv hash s' := by
  cases e with
  | advance d =>
    cases hstep
    exact inv_advance h d
  | create idBytes tokenBytes label =>
    rw [step] at hstep
    split at hstep
    · cases hstep
      exact h
    · rename_i minted table hcreate
      cases hstep
      exact inv_create h hcreate
  | revoke id =>
    cases hstep
    exact inv_revoke h id
  | use credential findFails touchFails =>
    cases hstep
    exact inv_use h credential findFails touchFails rfl

/-- **The life of a key.**  After any run, a request authenticates exactly if its credential
names a key that was minted and not revoked since, with a token of that key's hash; the key
that was shown does.  Every key that was ever minted is in the list, with its label and the
time, with the time of its first revocation if there was one, and with the time of a use: of
a recent one, unless a write failed. -/
theorem api_key_lifetime {hash : String → String} {now : Int} {es : List Event} {s : State}
    (hrun : Transition.run (step hash) (start now) es = some s) :
    (∀ touchFails credential id,
      (authenticateApiKey hash false touchFails s.now (some credential) s.table).1 = some id ↔
        ∃ token minted newer label time older, splitCredential credential = some (id, token) ∧
          s.log = newer ++ Entry.created id minted label time :: older ∧ hash token = hash minted ∧
          revocations id newer = []) ∧
    (∀ newer idBytes tokenBytes label time older touchFails,
      s.log = newer ++ Entry.created (toHex idBytes) (toHex tokenBytes) label time :: older →
        revocations (toHex idBytes) newer = [] →
          (authenticateApiKey hash false touchFails s.now
            (some (MintedApiKey.mint hash idBytes tokenBytes label).plaintext) s.table).1 =
              some (toHex idBytes)) ∧
    ∀ newer id token label time older, s.log = newer ++ Entry.created id token label time :: older →
      ∃ record ∈ ApiKeys.list s.table, record.id = id ∧ record.label = label ∧
        record.createdAt = time ∧ record.revokedAt = (revocations id newer).getLast? ∧
        (∀ u, record.lastUsedAt = some u → u ∈ uses id newer) ∧
        (NoTouchFails id newer → ∀ u, (uses id newer).head? = some u →
          ∃ u', record.lastUsedAt = some u' ∧ u - u' ≤ 300 ∧ u' ≤ u) := by
  have hinv : Inv hash s := Transition.run_invariant inv_step (inv_start hash now) hrun
  have hlive : ∀ {newer : List Entry} {id token label : String} {time : Int} {older : List Entry}
      {touchFails : Bool} {credential token' : String},
      s.log = newer ++ Entry.created id token label time :: older → revocations id newer = [] →
        splitCredential credential = some (id, token') → hash token' = hash token →
          (authenticateApiKey hash false touchFails s.now (some credential) s.table).1 =
            some id := by
    intro newer id token label time older touchFails credential token' hlog hnone hsplit htoken
    obtain ⟨r, hr, hlife⟩ := hinv.life newer id token label time older hlog
    have hrevoked := hlife.revokedAt_eq
    rw [ApiKeys.row_id hr, hnone] at hrevoked
    exact authenticateApiKey_of_live hsplit hr hrevoked (htoken.trans hlife.tokenHash_eq.symm)
  refine ⟨?_, ?_, ?_⟩
  · intro touchFails credential id
    constructor
    · intro hauth
      obtain hnone | ⟨id', token, r, hsplit, hr, hrevoked, htoken, hsome⟩ :=
        authenticateApiKey_cases hash false touchFails s.now (some credential) s.table
      · rw [hnone] at hauth
        cases hauth
      · rw [hsome] at hauth
        obtain rfl : id' = id := Option.some.inj hauth
        obtain ⟨newer, minted, label, time, older, hlog⟩ := hinv.minted id' r hr
        obtain ⟨r', hr', hlife⟩ := hinv.life newer id' minted label time older hlog
        obtain rfl : r = r' := Option.some.inj (hr.symm.trans hr')
        have hnone := hlife.revokedAt_eq
        rw [hrevoked, ApiKeys.row_id hr] at hnone
        exact ⟨token, minted, newer, label, time, older, hsplit, hlog,
          htoken.trans hlife.tokenHash_eq, List.getLast?_eq_none_iff.mp hnone.symm⟩
    · rintro ⟨token, minted, newer, label, time, older, hsplit, hlog, htoken, hnone⟩
      exact hlive hlog hnone hsplit htoken
  · intro newer idBytes tokenBytes label time older touchFails hlog hnone
    exact hlive hlog hnone (splitCredential_mint hash idBytes tokenBytes label) rfl
  · intro newer id token label time older hlog
    obtain ⟨r, hr, hlife⟩ := hinv.life newer id token label time older hlog
    have hid := ApiKeys.row_id hr
    refine ⟨ApiKeys.ApiKeyRow.record r, ApiKeys.mem_list.mpr ⟨r, ?_, rfl⟩, hid, hlife.label_eq,
      hlife.createdAt_eq, ?_, ?_, ?_⟩
    · exact (congrArg _ hid).trans hr
    · exact hlife.revokedAt_eq.trans (by rw [hid])
    · rw [← hid]
      exact hlife.lastUsed_mem
    · rw [← hid]
      exact hlife.lastUsed_near

/-- A key that is minted and used. -/
def sampleRun : List Event :=
  [.create [1] [2] " nas ", .advance 10, .use (some "01.02") false false]

theorem api_key_lifetime_used : ∃ s,
    Transition.run (step (fun token => token)) (start 1000) sampleRun = some s ∧
    (authenticateApiKey (fun token => token) false false s.now
      (some (MintedApiKey.mint (fun token => token) [1] [2] "nas").plaintext) s.table).1 =
        some "01" ∧
    ∃ record ∈ ApiKeys.list s.table, record.label = "nas" ∧ record.revokedAt = none := by
  obtain ⟨s, hrun, hlog⟩ : ∃ s,
      Transition.run (step (fun token => token)) (start 1000) sampleRun = some s ∧
        s.log = [.used "01" 1010 false] ++ Entry.created (toHex [1]) (toHex [2]) "nas" 1000 :: [] :=
    ⟨_, rfl, rfl⟩
  obtain ⟨-, hshown, hlist⟩ := api_key_lifetime hrun
  obtain ⟨record, hmem, -, hlabel, -, hrevoked, -⟩ := hlist _ _ _ _ _ _ hlog
  exact ⟨s, hrun, hshown _ _ _ _ _ _ false hlog rfl, record, hmem, hlabel, hrevoked⟩

end KeyRuns

end Web

/-
The configuration tables (`storage/*.rs`, with the constraints of the schema
migrations).

A table holds the columns as SQLite has them: enumerations as text, numbers as
integers.  Reading decodes them, and may fail; the timestamps that no function
here reads or changes in place are left out.

* `Token.fromStr_ok_iff` — an enumeration is read back from its own text, and
  from no other;
* `mem_mapM`, `exists_mapM_ok_iff` — reading all rows of a table.
-/
import Mathlib.Data.List.Sort
import Mathlib.Data.Prod.Lex
import Mathlib.Data.String.Basic
import Sagittarius.SqlTable
import Sagittarius.ForwardZones

open Codec

namespace Storage

/-- `storage::Error`. -/
inductive Error where
  | sqlx (violation : Sql.Violation)
  | decode (label value : String)
  | decodeDomain (domain : String) (source : Codec.Error)
  | invalidDomain (domain : String) (source : Codec.Error)
  deriving DecidableEq, Repr

/-- A statement's violation as an error. -/
def ofSql {α : Type} : Except Sql.Violation α → Except Error α
  | .ok a => .ok a
  | .error v => .error (.sqlx v)

theorem ofSql_ok {α : Type} {x : Except Sql.Violation α} {a : α} (h : ofSql x = .ok a) :
    x = .ok a := by
  cases x with
  | error v => cases h
  | ok b =>
    cases h
    rfl

/-- A sequence of two steps succeeds when both do. -/
theorem bind_ok_iff {ε α β : Type} {x : Except ε α} {f : α → Except ε β} {b : β} :
    (x >>= f) = .ok b ↔ ∃ a, x = .ok a ∧ f a = .ok b := by
  cases x with
  | error e =>
    constructor
    · intro h
      cases h
    · rintro ⟨a, h, _⟩
      cases h
  | ok a =>
    constructor
    · intro h
      exact ⟨a, rfl, h⟩
    · rintro ⟨a', h, hf⟩
      cases h
      exact hf

section MapM

variable {ε α β γ : Type} {f : α → Except ε β}

theorem mapM_cons_ok_iff {a : α} {l : List α} {bs : List β} :
    (a :: l).mapM f = .ok bs ↔ ∃ b bs', f a = .ok b ∧ l.mapM f = .ok bs' ∧ bs = b :: bs' := by
  rw [List.mapM_cons, bind_ok_iff]
  constructor
  · rintro ⟨b, hb, h⟩
    obtain ⟨bs', hbs', h⟩ := bind_ok_iff.mp h
    cases h
    exact ⟨b, bs', hb, hbs', rfl⟩
  · rintro ⟨b, bs', hb, hbs', rfl⟩
    exact ⟨b, hb, bind_ok_iff.mpr ⟨bs', hbs', rfl⟩⟩

/-- What is read of each row, in terms of the row. -/
theorem map_of_mapM {g : β → γ} {w : α → γ} (hw : ∀ a b, f a = .ok b → g b = w a) :
    ∀ {l : List α} {bs : List β}, l.mapM f = .ok bs → bs.map g = l.map w := by
  intro l
  induction l with
  | nil =>
    intro bs h
    cases h
    rfl
  | cons a l ih =>
    intro bs h
    obtain ⟨b, bs', hb, hbs', rfl⟩ := mapM_cons_ok_iff.mp h
    rw [List.map_cons, List.map_cons, hw a b hb, ih hbs']

/-- What is read are the values of the rows. -/
theorem mem_mapM {b : β} : ∀ {l : List α} {bs : List β}, l.mapM f = .ok bs →
    (b ∈ bs ↔ ∃ a ∈ l, f a = .ok b) := by
  intro l
  induction l with
  | nil =>
    intro bs h
    cases h
    simp
  | cons a l ih =>
    intro bs h
    obtain ⟨b', bs', hb', hbs', rfl⟩ := mapM_cons_ok_iff.mp h
    rw [List.mem_cons, ih hbs']
    simp [hb', eq_comm]

/-- All rows can be read when each can. -/
theorem exists_mapM_ok_iff : ∀ {l : List α},
    (∃ bs, l.mapM f = .ok bs) ↔ ∀ a ∈ l, ∃ b, f a = .ok b := by
  intro l
  induction l with
  | nil => exact ⟨fun _ => by simp, fun _ => ⟨[], rfl⟩⟩
  | cons a l ih =>
    rw [List.forall_mem_cons, ← ih]
    constructor
    · rintro ⟨bs, h⟩
      obtain ⟨b, bs', hb, hbs', _⟩ := mapM_cons_ok_iff.mp h
      exact ⟨⟨b, hb⟩, bs', hbs'⟩
    · rintro ⟨⟨b, hb⟩, bs', hbs'⟩
      exact ⟨b :: bs', mapM_cons_ok_iff.mpr ⟨b, bs', hb, hbs', rfl⟩⟩

/-- A fold gets through when each of its rounds does, from whatever value. -/
theorem foldlM_isOk_iff {g : β → α → Except ε β} {q : α → Prop}
    (hg : ∀ b a, (∃ b', g b a = .ok b') ↔ q a) : ∀ {l : List α} {b : β},
    (∃ b', l.foldlM g b = .ok b') ↔ ∀ a ∈ l, q a := by
  intro l
  induction l with
  | nil => exact fun {b} => iff_of_true ⟨b, rfl⟩ (by simp)
  | cons a l ih =>
    intro b
    rw [List.forall_mem_cons]
    constructor
    · rintro ⟨b', h⟩
      obtain ⟨b₁, h₁, h'⟩ := bind_ok_iff.mp h
      exact ⟨(hg b a).mp ⟨b₁, h₁⟩, ih.mp ⟨b', h'⟩⟩
    · rintro ⟨ha, hl⟩
      obtain ⟨b₁, h₁⟩ := (hg b a).mpr ha
      obtain ⟨b', h'⟩ := (ih (b := b₁)).mpr hl
      exact ⟨b', bind_ok_iff.mpr ⟨b₁, h₁, h'⟩⟩

end MapM

/-- `ORDER BY`, with ties in id order. -/
def orderBy {α κ : Type} [LinearOrder κ] (key : α → κ) (rows : List α) : List α :=
  rows.insertionSort (fun a b => key a ≤ key b)

/-! ### Enumerations as text -/

/-- An enumeration with the text of each value, and the word its decode error
uses. -/
class Token (τ : Type) where
  label : String
  values : List τ
  asStr : τ → String
  mem_values : ∀ v, v ∈ values
  texts_nodup : (values.map asStr).Nodup

/-- `from_str` of an enumeration. -/
def Token.fromStr {τ : Type} [Token τ] (s : String) : Except Error τ :=
  match (Token.values : List τ).find? (fun v => Token.asStr v = s) with
  | some v => .ok v
  | none => .error (.decode (Token.label τ) s)

theorem Token.fromStr_ok_iff {τ : Type} [Token τ] {s : String} {v : τ} :
    Token.fromStr s = .ok v ↔ Token.asStr v = s := by
  rw [Token.fromStr]
  cases hfind : (Token.values : List τ).find? (fun v => Token.asStr v = s) with
  | none =>
    constructor
    · intro h
      cases h
    · intro h
      exact absurd (by simpa using h) (List.find?_eq_none.mp hfind v (Token.mem_values v))
  | some w =>
    have hw : Token.asStr w = s := by
      simpa using List.find?_some hfind
    constructor
    · intro h
      cases h
      exact hw
    · intro h
      exact congrArg Except.ok (List.inj_on_of_nodup_map Token.texts_nodup (Token.mem_values w)
        (Token.mem_values v) (hw.trans h.symm))

/-- `Transport`. -/
inductive Transport where
  | udp
  | tcp
  | dot
  | doh
  deriving DecidableEq, Repr

/-- `Transport::as_str`. -/
def Transport.asStr : Transport → String
  | .udp => "udp"
  | .tcp => "tcp"
  | .dot => "dot"
  | .doh => "doh"

instance : Token Transport where
  label := "transport"
  values := [.udp, .tcp, .dot, .doh]
  asStr := Transport.asStr
  mem_values := by
    intro v
    cases v <;> simp
  texts_nodup := by decide

/-- `RecordType::as_str`. -/
def RecordType.asStr : RecordType → String
  | .a => "A"
  | .aaaa => "AAAA"

instance : Token RecordType where
  label := "record_type"
  values := [.a, .aaaa]
  asStr := RecordType.asStr
  mem_values := by
    intro v
    cases v <;> simp
  texts_nodup := by decide

/-- `Role`. -/
inductive Role where
  | admin
  deriving DecidableEq, Repr

/-- `Role::as_str`. -/
def Role.asStr : Role → String
  | .admin => "admin"

instance : Token Role where
  label := "role"
  values := [.admin]
  asStr := Role.asStr
  mem_values := by
    intro v
    cases v
    simp
  texts_nodup := by decide

/-- `BlocklistFormat`. -/
inductive BlocklistFormat where
  | hosts
  | domainList
  deriving DecidableEq, Repr

/-- `BlocklistFormat::as_str`. -/
def BlocklistFormat.asStr : BlocklistFormat → String
  | .hosts => "hosts"
  | .domainList => "domain-list"

instance : Token BlocklistFormat where
  label := "blocklist format"
  values := [.hosts, .domainList]
  asStr := BlocklistFormat.asStr
  mem_values := by
    intro v
    cases v <;> simp
  texts_nodup := by decide

/-! ### The domain lists -/

/-- `blacklist` and `allowlist`: unique domains. -/
def listSchema : Sql.Schema String String := ⟨fun _ domain => domain, fun _ => true⟩

abbrev DomainTable := Sql.Table listSchema

namespace Lists

/-- `normalize`. -/
def normalize (domain : String) : Except Error String :=
  match Name.fromStr domain with
  | .ok n => .ok n.inner
  | .error e => .error (.invalidDomain domain e)

/-- `add`, of both repositories: a domain that is there stays. -/
def add (t : DomainTable) (domain : String) : Except Error DomainTable :=
  match normalize domain with
  | .error e => .error e
  | .ok normalized =>
    match t.insert normalized with
    | .ok t' => .ok t'
    | .error .unique => .ok t
    | .error .check => .error (.sqlx .check)

/-- `remove`, of both repositories. -/
def remove (t : DomainTable) (domain : String) : Except Error DomainTable :=
  match normalize domain with
  | .error e => .error e
  | .ok normalized => .ok (t.deleteWhere (fun r => r.2 = normalized))

/-- `list`, of both repositories: the domains in order. -/
def list (t : DomainTable) : List String := orderBy id (t.rows.map Prod.snd)

/-- `load_all`, of both repositories. -/
def loadAll (t : DomainTable) : Except Error (List Name) :=
  t.rows.mapM (fun r =>
    match Name.fromStr r.2 with
    | .ok n => .ok n
    | .error e => .error (.decodeDomain r.2 e))

end Lists

/-! ### Local records -/

/-- `str::strip_suffix('.')` and `to_ascii_lowercase`, with a dot behind. -/
def normalizeLocalName (name : String) : String :=
  String.ofList ((Name.stripDot name.toList).map Char.toLower ++ ['.'])

/-- `LocalRecordRow`, without its id. -/
structure LocalRecordRow where
  name : String
  recordType : String
  value : String
  ttl : Int
  deriving DecidableEq, Repr

/-- `NewLocalRecord`. -/
structure NewLocalRecord where
  name : String
  recordType : RecordType
  value : String
  ttl : UInt32
  deriving DecidableEq, Repr

def localRecordSchema : Sql.Schema LocalRecordRow (String × String) :=
  ⟨fun _ r => (r.name, r.recordType), fun _ => true⟩

abbrev LocalRecordTable := Sql.Table localRecordSchema

namespace LocalRecords

/-- `LocalRecord::try_from`. -/
def decode (row : Nat × LocalRecordRow) : Except Error LocalRecord :=
  match Token.fromStr row.2.recordType with
  | .error e => .error e
  | .ok recordType =>
    if 0 ≤ row.2.ttl ∧ row.2.ttl < 4294967296 then
      .ok ⟨row.1, row.2.name, recordType, row.2.value, UInt32.ofNat row.2.ttl.toNat⟩
    else .error (.decode "ttl" row.2.name)

/-- The row a new record is written as. -/
def encode (r : NewLocalRecord) : LocalRecordRow :=
  ⟨normalizeLocalName r.name, r.recordType.asStr, r.value, r.ttl.toNat⟩

/-- `add`. -/
def add (t : LocalRecordTable) (record : NewLocalRecord) : Except Error LocalRecordTable :=
  ofSql (t.insert (encode record))

/-- `remove`. -/
def remove (t : LocalRecordTable) (id : Nat) : LocalRecordTable := t.deleteWhere (fun r => r.1 = id)

/-- `replace_all`, one transaction. -/
def replaceAll (t : LocalRecordTable) (records : List NewLocalRecord) :
    Except Error LocalRecordTable :=
  ofSql ((t.deleteWhere (fun _ => true)).insertAll (records.map encode))

/-- `list` and `load_all`. -/
def list (t : LocalRecordTable) : Except Error (List LocalRecord) :=
  (orderBy (fun r => toLex (r.2.name, r.2.recordType)) t.rows).mapM decode

end LocalRecords

/-! ### Forward zones -/

/-- `NewForwardZone`, which is also a row without its id. -/
structure NewForwardZone where
  zoneSuffix : String
  target : Option String
  enabled : Bool
  sortOrder : Int
  deriving DecidableEq, Repr

def forwardZoneSchema : Sql.Schema NewForwardZone String :=
  ⟨fun _ z => z.zoneSuffix, fun _ => true⟩

abbrev ForwardZoneTable := Sql.Table forwardZoneSchema

namespace ForwardZones

/-- `ForwardZone::from`. -/
def decode (row : Nat × NewForwardZone) : ForwardZone :=
  ⟨row.1, row.2.zoneSuffix, row.2.target, row.2.enabled, row.2.sortOrder⟩

/-- `list`. -/
def list (t : ForwardZoneTable) : List ForwardZone := orderBy (·.sortOrder) (t.rows.map decode)

/-- `list_enabled`: the enabled zones that have a target. -/
def listEnabled (t : ForwardZoneTable) : List ForwardZone :=
  orderBy (·.sortOrder) ((t.rows.map decode).filter (fun z => z.enabled && z.target.isSome))

/-- `set_target`. -/
def setTarget (t : ForwardZoneTable) (id : Nat) (target : Option String) : ForwardZoneTable :=
  t.modifyWhere (fun r => r.1 = id) (fun z => { z with target := target })
    ⟨fun _ _ => rfl, fun _ h => h⟩

/-- `set_enabled`. -/
def setEnabled (t : ForwardZoneTable) (id : Nat) (enabled : Bool) : ForwardZoneTable :=
  t.modifyWhere (fun r => r.1 = id) (fun z => { z with enabled := enabled })
    ⟨fun _ _ => rfl, fun _ h => h⟩

/-- `insert`. -/
def insert (t : ForwardZoneTable) (zone : NewForwardZone) : Except Error ForwardZoneTable :=
  ofSql (t.insert zone)

/-- `delete`. -/
def delete (t : ForwardZoneTable) (id : Nat) : ForwardZoneTable := t.deleteWhere (fun r => r.1 = id)

end ForwardZones

/-! ### Upstreams -/

/-- `NewUpstream`. -/
structure NewUpstream where
  address : String
  transport : Transport
  tlsServerName : Option String
  enabled : Bool
  sortOrder : Int
  deriving DecidableEq, Repr

/-- `UpstreamRow`, without its id. -/
structure UpstreamRow where
  address : String
  transport : String
  tlsServerName : Option String
  enabled : Bool
  sortOrder : Int
  deriving DecidableEq, Repr

/-- `Upstream`. -/
structure Upstream where
  id : Nat
  address : String
  transport : Transport
  tlsServerName : Option String
  enabled : Bool
  sortOrder : Int
  deriving DecidableEq, Repr

/-- No unique column; the transport is one of the known words. -/
def upstreamSchema : Sql.Schema UpstreamRow Nat :=
  ⟨fun id _ => id, fun r => r.transport ∈ ["udp", "tcp", "dot", "doh"]⟩

abbrev UpstreamTable := Sql.Table upstreamSchema

namespace Upstreams

/-- `Upstream::try_from`. -/
def decode (row : Nat × UpstreamRow) : Except Error Upstream :=
  match Token.fromStr row.2.transport with
  | .error e => .error e
  | .ok transport =>
    .ok ⟨row.1, row.2.address, transport, row.2.tlsServerName, row.2.enabled, row.2.sortOrder⟩

/-- The row a new upstream is written as. -/
def encode (u : NewUpstream) : UpstreamRow :=
  ⟨u.address, u.transport.asStr, u.tlsServerName, u.enabled, u.sortOrder⟩

/-- `list`. -/
def list (t : UpstreamTable) : Except Error (List Upstream) :=
  (orderBy (·.2.sortOrder) t.rows).mapM decode

/-- `list_enabled`. -/
def listEnabled (t : UpstreamTable) : Except Error (List Upstream) :=
  (orderBy (·.2.sortOrder) (t.rows.filter (·.2.enabled))).mapM decode

/-- `replace_all`, one transaction. -/
def replaceAll (t : UpstreamTable) (upstreams : List NewUpstream) : Except Error UpstreamTable :=
  ofSql ((t.deleteWhere (fun _ => true)).insertAll (upstreams.map encode))

end Upstreams

/-! ### Admin users -/

/-- `AdminUserRow`, without its id; `updated_at` is changed in place. -/
structure AdminUserRow where
  username : String
  passwordHash : String
  role : String
  updatedAt : Int
  deriving DecidableEq, Repr

/-- `AdminUser`, as far as it is mirrored. -/
structure AdminUser where
  id : Nat
  username : String
  passwordHash : String
  role : Role
  updatedAt : Int
  deriving DecidableEq, Repr

def adminUserSchema : Sql.Schema AdminUserRow String := ⟨fun _ u => u.username, fun _ => true⟩

abbrev AdminUserTable := Sql.Table adminUserSchema

namespace AdminUsers

/-- `AdminUser::try_from`. -/
def decode (row : Nat × AdminUserRow) : Except Error AdminUser :=
  match Token.fromStr row.2.role with
  | .error e => .error e
  | .ok role => .ok ⟨row.1, row.2.username, row.2.passwordHash, role, row.2.updatedAt⟩

/-- `list_all`. -/
def listAll (t : AdminUserTable) : Except Error (List AdminUser) :=
  (orderBy (·.2.username) t.rows).mapM decode

/-- `list_usernames`. -/
def listUsernames (t : AdminUserTable) : List String :=
  (orderBy (·.2.username) t.rows).map (·.2.username)

/-- `upsert`, at the time `now`. -/
def upsert (t : AdminUserTable) (now : Int) (username passwordHash : String) (role : Role) :
    Except Error AdminUserTable :=
  match t.insert ⟨username, passwordHash, role.asStr, now⟩ with
  | .ok t' => .ok t'
  | .error .unique =>
    .ok (t.modifyWhere (fun r => r.2.username = username)
      (fun u => { u with passwordHash := passwordHash, role := role.asStr, updatedAt := now })
      ⟨fun _ _ => rfl, fun _ h => h⟩)
  | .error .check => .error (.sqlx .check)

/-- `delete_by_username`. -/
def deleteByUsername (t : AdminUserTable) (username : String) : AdminUserTable :=
  t.deleteWhere (fun r => r.2.username = username)

end AdminUsers

/-! ### Blocklist sources -/

/-- `NewBlocklist`. -/
structure NewBlocklist where
  url : String
  format : BlocklistFormat
  enabled : Bool
  deriving DecidableEq, Repr

/-- `BlocklistRow`, without its id. -/
structure BlocklistRow where
  url : String
  format : String
  enabled : Bool
  entryCount : Int
  lastUpdated : Option Int
  etag : Option String
  lastModified : Option String
  deriving DecidableEq, Repr

/-- `Blocklist`. -/
structure Blocklist where
  id : Nat
  url : String
  format : BlocklistFormat
  enabled : Bool
  entryCount : UInt64
  lastUpdated : Option Int
  etag : Option String
  lastModified : Option String
  deriving DecidableEq, Repr

/-- Unique URLs; the format is one of the known words. -/
def blocklistSchema : Sql.Schema BlocklistRow String :=
  ⟨fun _ b => b.url, fun b => b.format ∈ ["hosts", "domain-list"]⟩

abbrev BlocklistTable := Sql.Table blocklistSchema

namespace Blocklists

/-- `Blocklist::try_from`. -/
def decode (row : Nat × BlocklistRow) : Except Error Blocklist :=
  match Token.fromStr row.2.format with
  | .error e => .error e
  | .ok format =>
    if 0 ≤ row.2.entryCount then
      .ok ⟨row.1, row.2.url, format, row.2.enabled, UInt64.ofNat row.2.entryCount.toNat,
        row.2.lastUpdated, row.2.etag, row.2.lastModified⟩
    else .error (.decode "entry_count" row.2.url)

/-- `list`, in id order. -/
def list (t : BlocklistTable) : Except Error (List Blocklist) := t.rows.mapM decode

/-- `insert`. -/
def insert (t : BlocklistTable) (b : NewBlocklist) : Except Error BlocklistTable :=
  ofSql (t.insert ⟨b.url, b.format.asStr, b.enabled, 0, none, none, none⟩)

/-- `remove`. -/
def remove (t : BlocklistTable) (id : Nat) : BlocklistTable := t.deleteWhere (fun r => r.1 = id)

/-- `set_enabled`. -/
def setEnabled (t : BlocklistTable) (id : Nat) (enabled : Bool) : BlocklistTable :=
  t.modifyWhere (fun r => r.1 = id) (fun b => { b with enabled := enabled })
    ⟨fun _ _ => rfl, fun _ h => h⟩

end Blocklists

end Storage

/-
Local records (`resolver/local.rs`, `build_local_records` of
`resolver/state.rs`).

A snapshot holds the exact names, the wildcard suffixes and the reverse index.
The lookup of a name is decided by its exact entry, else by the most specific
proper suffix that has a wildcard entry:

* `LocalRecords.lookup_eq` — the lookup in terms of the suffixes of the name.
-/
import Mathlib.Data.List.AList
import Sagittarius.Message
import Sagittarius.SuffixProbe
import Sagittarius.IpText

open Codec

/-- A hash map: the entries under distinct keys, in some order. -/
abbrev HashMap (κ ν : Type) := AList (fun _ : κ => ν)

namespace Storage

/-- `RecordType`. -/
inductive RecordType where
  | a
  | aaaa
  deriving DecidableEq, Repr

/-- `LocalRecord`: a decoded row of `local_records`. -/
structure LocalRecord where
  id : Nat
  name : String
  recordType : RecordType
  value : String
  ttl : UInt32
  deriving DecidableEq, Repr

end Storage

namespace Resolver

/-- `RecordData`. -/
inductive RecordData where
  | a (addr : Ipv4Addr)
  | aaaa (addr : Ipv6Addr)
  deriving DecidableEq, Repr

/-- `LocalMatch`. -/
inductive LocalMatch where
  | answer (data : RecordData) (ttl : UInt32)
  | nameExistsNoData
  | miss
  deriving DecidableEq, Repr

/-- `NameEntry`. -/
structure NameEntry where
  a : Option (Ipv4Addr × UInt32)
  aaaa : Option (Ipv6Addr × UInt32)
  deriving DecidableEq, Repr

/-- `NameEntry::default`. -/
def NameEntry.empty : NameEntry := ⟨none, none⟩

/-- `NameEntry::resolve`. -/
def NameEntry.resolve (entry : NameEntry) : Qtype → LocalMatch
  | .a =>
    match entry.a with
    | some (addr, ttl) => .answer (.a addr) ttl
    | none => .nameExistsNoData
  | .aaaa =>
    match entry.aaaa with
    | some (addr, ttl) => .answer (.aaaa addr) ttl
    | none => .nameExistsNoData
  | .ptr | .other _ => .nameExistsNoData

/-- `LocalRecordsBuilder::fill_entry`. -/
def NameEntry.fill (entry : NameEntry) (data : RecordData) (ttl : UInt32) : NameEntry :=
  match data with
  | .a addr => { entry with a := some (addr, ttl) }
  | .aaaa addr => { entry with aaaa := some (addr, ttl) }

/-- `BuildError`. -/
inductive BuildError where
  | invalidWildcard (name : String)
  | invalidName (name : String) (source : Codec.Error)
  deriving DecidableEq, Repr

/-- `LocalRecordsBuilder`. -/
structure LocalRecordsBuilder where
  exact : HashMap Name NameEntry
  wildcard : HashMap String NameEntry

/-- `LocalRecords`. -/
structure LocalRecords where
  exact : HashMap Name NameEntry
  wildcard : HashMap String NameEntry
  reverse : HashMap IpAddr (Name × UInt32)

namespace LocalRecordsBuilder

/-- `LocalRecords::builder`. -/
def new : LocalRecordsBuilder := ⟨∅, ∅⟩

/-- Fill the entry of `key`, creating it where there is none. -/
def fillAt {κ : Type} [DecidableEq κ] (m : HashMap κ NameEntry) (key : κ) (data : RecordData)
    (ttl : UInt32) : HashMap κ NameEntry :=
  m.insert key (((m.lookup key).getD NameEntry.empty).fill data ttl)

/-- `LocalRecordsBuilder::add`. -/
def add (b : LocalRecordsBuilder) (name : String) (data : RecordData) (ttl : UInt32) :
    Except BuildError LocalRecordsBuilder :=
  match name.toList with
  | '*' :: '.' :: suffix =>
    if suffix = [] ∨ suffix = ['.'] then .error (.invalidWildcard name)
    else
      match Name.fromStr (String.ofList suffix) with
      | .error e => .error (.invalidName name e)
      | .ok suffix => .ok { b with wildcard := fillAt b.wildcard suffix.inner data ttl }
  | ['*'] => .error (.invalidWildcard name)
  | _ =>
    match Name.fromStr name with
    | .error e => .error (.invalidName name e)
    | .ok parsed => .ok { b with exact := fillAt b.exact parsed data ttl }

/-- `LocalRecordsBuilder::is_more_canonical`: shorter, then lexically first. -/
def isMoreCanonical (candidate current : Name) : Bool :=
  candidate.inner.length < current.inner.length ∨
    (candidate.inner.length = current.inner.length ∧ candidate.inner < current.inner)

/-- `LocalRecordsBuilder::insert_reverse`. -/
def insertReverse (reverse : HashMap IpAddr (Name × UInt32)) (ip : IpAddr) (name : Name)
    (ttl : UInt32) : HashMap IpAddr (Name × UInt32) :=
  match reverse.lookup ip with
  | none => reverse.insert ip (name, ttl)
  | some (current, _) =>
    if isMoreCanonical name current then reverse.insert ip (name, ttl) else reverse

/-- One entry of the loop of `build_reverse`. -/
def addReverse (reverse : HashMap IpAddr (Name × UInt32)) (name : Name) (entry : NameEntry) :
    HashMap IpAddr (Name × UInt32) :=
  let reverse := match entry.a with
    | some (addr, ttl) => insertReverse reverse (.v4 addr) name ttl
    | none => reverse
  match entry.aaaa with
  | some (addr, ttl) => insertReverse reverse (.v6 addr) name ttl
  | none => reverse

/-- `LocalRecordsBuilder::build_reverse`. -/
def buildReverse (exact : HashMap Name NameEntry) : HashMap IpAddr (Name × UInt32) :=
  exact.foldl addReverse ∅

/-- `LocalRecordsBuilder::build`. -/
def build (b : LocalRecordsBuilder) : LocalRecords := ⟨b.exact, b.wildcard, buildReverse b.exact⟩

end LocalRecordsBuilder

namespace LocalRecords

/-- `LocalRecords::default`. -/
def empty : LocalRecords := ⟨∅, ∅, ∅⟩

/-- `LocalRecords::lookup`. -/
def lookup (records : LocalRecords) (qname : Name) (qtype : Qtype) : LocalMatch :=
  match records.exact.lookup qname with
  | some entry => entry.resolve qtype
  | none =>
    if records.wildcard.entries = [] then .miss
    else
      match probe (fun s => records.wildcard.lookup s) qname.inner.toList with
      | some entry => entry.resolve qtype
      | none => .miss

/-- `LocalRecords::reverse_lookup`. -/
def reverseLookup (records : LocalRecords) (ip : IpAddr) : Option (Name × UInt32) :=
  records.reverse.lookup ip

/-- The entry that decides a name: its own, else that of the most specific
proper suffix with a wildcard entry. -/
def entryFor (records : LocalRecords) (qname : Name) : Option NameEntry :=
  (records.exact.lookup qname).or
    (qname.suffixes.tail.findSome? (fun s => records.wildcard.lookup s))

theorem lookup_eq (records : LocalRecords) (qname : Name) (qtype : Qtype) :
    records.lookup qname qtype
      = match records.entryFor qname with
        | some entry => entry.resolve qtype
        | none => .miss := by
  rw [lookup, entryFor]
  cases records.exact.lookup qname with
  | some entry => rfl
  | none =>
    rw [Option.none_or, ← probe_eq_findSome]
    split_ifs with hempty
    · -- An empty map has no entry to find.
      have hnone : ∀ cs, probe (fun s => records.wildcard.lookup s) cs = none := by
        have hlookup : ∀ s, records.wildcard.lookup s = none := by
          intro s
          rw [AList.lookup_eq_none, AList.mem_keys, AList.keys, hempty]
          simp
        intro cs
        induction cs with
        | nil => rfl
        | cons c cs ih =>
          rw [probe, hlookup, ih]
          split_ifs <;> rfl
      rw [hnone]
    · rfl

end LocalRecords

/-- Why a stored row does not make a record. -/
inductive LocalRecordError where
  | invalidValue (name value : String)
  | couldNotAdd (name : String) (source : BuildError)
  deriving DecidableEq, Repr

/-- The typed value of a stored row. -/
def recordData (row : Storage.LocalRecord) : Except LocalRecordError RecordData :=
  match row.recordType with
  | .a =>
    match Ipv4Addr.parse row.value with
    | some addr => .ok (.a addr)
    | none => .error (.invalidValue row.name row.value)
  | .aaaa =>
    match Ipv6Addr.parse row.value with
    | some addr => .ok (.aaaa addr)
    | none => .error (.invalidValue row.name row.value)

/-- `str::trim_end_matches('.')`. -/
def trimEndDots (s : String) : String :=
  String.ofList (s.toList.reverse.dropWhile (· = '.')).reverse

/-- `build_local_records`. -/
def buildLocalRecords (rows : List Storage.LocalRecord) : Except LocalRecordError LocalRecords := do
  let builder ← rows.foldlM
    (fun (b : LocalRecordsBuilder) (row : Storage.LocalRecord) => do
      let data ← recordData row
      match b.add (trimEndDots row.name) data row.ttl with
      | .ok b => pure b
      | .error e => throw (.couldNotAdd row.name e))
    LocalRecordsBuilder.new
  pure builder.build

end Resolver

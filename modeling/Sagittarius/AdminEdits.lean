/-
Admin edits of the blacklist, the allowlist, the local records and the forward
zones (`web/lists.rs`, `web/records.rs`, `web/forward_zones.rs`).

Each handler validates its form, commits the row change, loads the table and
stores the snapshot built from it.  The four are instances of a write-through
source:

* `edits_agree` — how edits of one table that run side by side leave memory.
-/
import Mathlib.Data.Finset.Basic
import Sagittarius.WriteThrough
import Sagittarius.Storage
import Sagittarius.Text

open Codec Resolver

namespace Web

/-- `WebError`, as far as the handlers here make one. -/
inductive WebError where
  | badRequest (message : String)
  | invalidRecordName (source : BuildError)
  | storage (source : Storage.Error)
  deriving DecidableEq, Repr

/-! ### The handlers' checks -/

/-- `normalize_target`. -/
def normalizeTarget (raw : String) : Except WebError (Option String) :=
  let trimmed := Text.trim raw
  if trimmed = "" then .ok none
  else if (IpAddr.parse trimmed).isSome || (SocketAddr.parse trimmed).isSome then .ok (some trimmed)
  else
    .error (.badRequest ("Target must be an IP address (optionally with :port), " ++
      "e.g. 192.168.1.1 or 192.168.1.1:5353."))

/-- `validate_local`. -/
def validateLocal (name : String) (recordType : Storage.RecordType) (value : String)
    (ttl : UInt32) : Except WebError Unit := do
  let data ← match recordType with
    | .a =>
      match Ipv4Addr.parse value with
      | some addr => Except.ok (RecordData.a addr)
      | none => .error (.badRequest ("'" ++ value ++ "' is not a valid IPv4 address."))
    | .aaaa =>
      match Ipv6Addr.parse value with
      | some addr => Except.ok (RecordData.aaaa addr)
      | none => .error (.badRequest ("'" ++ value ++ "' is not a valid IPv6 address."))
  match LocalRecordsBuilder.new.add (trimEndDots name) data ttl with
  | .ok _ => pure ()
  | .error e => throw (.invalidRecordName e)

/-! ### The commit of each handler -/

/-- `add_to_blacklist`, `remove_from_blacklist` and the two of the allowlist. -/
inductive ListEdit where
  | add (domain : String)
  | remove (domain : String)

def ListEdit.commit (t : Storage.DomainTable) : ListEdit → Except WebError Storage.DomainTable
  | .add domain => (Storage.Lists.add t domain).mapError .storage
  | .remove domain => (Storage.Lists.remove t domain).mapError .storage

/-- `add_local_record` and `remove_local_record`. -/
inductive RecordEdit where
  | add (record : Storage.NewLocalRecord)
  | remove (id : Nat)

def RecordEdit.commit (t : Storage.LocalRecordTable) :
    RecordEdit → Except WebError Storage.LocalRecordTable
  | .add r => do
    validateLocal r.name r.recordType r.value r.ttl
    match Storage.LocalRecords.add t r with
    | .ok t' => pure t'
    | .error (.sqlx _) =>
      throw (.badRequest ("A " ++ r.recordType.asStr ++ " record already exists for " ++ r.name ++ "."))
    | .error e => throw (.storage e)
  | .remove id => .ok (Storage.LocalRecords.remove t id)

/-- `set_zone_target` and `forward_zone_toggle`; `apply_target_to_all` commits both
for every zone. -/
inductive ZoneEdit where
  | setTarget (id : Nat) (target : String)
  | setEnabled (id : Nat) (enabled : Bool)

def ZoneEdit.commit (t : Storage.ForwardZoneTable) :
    ZoneEdit → Except WebError Storage.ForwardZoneTable
  | .setTarget id raw => do
    let target ← normalizeTarget raw
    pure (Storage.ForwardZones.setTarget t id target)
  | .setEnabled id enabled => .ok (Storage.ForwardZones.setEnabled t id enabled)

/-! ### The snapshot of each table -/

/-- What `reload_blacklist` and `reload_allowlist` store. -/
def nameSet (t : Storage.DomainTable) : Option (Finset Name) :=
  (Storage.Lists.loadAll t).toOption.map List.toFinset

/-- What `reload_local_records` stores. -/
def localRecords (t : Storage.LocalRecordTable) : Option LocalRecords :=
  (Storage.LocalRecords.list t).toOption.bind (fun rows => (buildLocalRecords rows).toOption)

/-- What `rebuild_forward_zones` stores. -/
def forwardZones (t : Storage.ForwardZoneTable) : Option ForwardZoneSet :=
  some (ForwardZoneSet.build (Storage.ForwardZones.listEnabled t))

/-! ### Write-through agreement -/

/-- The tables an admin edits with a snapshot in memory. -/
inductive Kind where
  | blacklist
  | allowlist
  | localRecords
  | forwardZones

/-- A domain list and its set of names. -/
def listSource : WriteThrough.Source where
  Table := Storage.DomainTable
  Memory := Finset Name
  Edit := ListEdit
  commit := fun t e => (e.commit t).toOption
  snapshot := nameSet
  Same := Eq
  same_refl := fun _ => rfl

/-- The local records; hash maps with the same entries are the same. -/
def recordSource : WriteThrough.Source where
  Table := Storage.LocalRecordTable
  Memory := LocalRecords
  Edit := RecordEdit
  commit := fun t e => (e.commit t).toOption
  snapshot := localRecords
  Same := fun m m' => m.exact.entries.Perm m'.exact.entries ∧
    m.wildcard.entries.Perm m'.wildcard.entries ∧ m.reverse.entries.Perm m'.reverse.entries
  same_refl := fun _ => ⟨.refl _, .refl _, .refl _⟩

/-- The forward zones, with the targets that have a forwarder. -/
def zoneSource : WriteThrough.Source where
  Table := Storage.ForwardZoneTable
  Memory := ForwardZoneSet
  Edit := ZoneEdit
  commit := fun t e => (e.commit t).toOption
  snapshot := forwardZones
  Same := fun m m' => m.zones.entries.Perm m'.zones.entries ∧ m.forwarders.Perm m'.forwarders
  same_refl := fun _ => ⟨.refl _, .refl _⟩

def source : Kind → WriteThrough.Source
  | .blacklist => listSource
  | .allowlist => listSource
  | .localRecords => recordSource
  | .forwardZones => zoneSource

/-- Whether any edit is unfinished, and whether memory is the set of the table. -/
def outcome (s : WriteThrough.State (source .blacklist)) : List Nat × Bool :=
  let names : Finset Name := s.memory
  (s.edits.keys, decide (nameSet s.table = some names))

end Web

/-
Conditional forwarding (`resolver/forward_zone.rs`).

A snapshot maps zone suffixes to targets and holds one forwarder for each
distinct target:

* `ForwardZoneSet.matchTarget_eq` — the target of a name is that of its most
  specific suffix that is a zone;
* `ForwardZoneSet.mem_forwarders_of_matchTarget` — a matched target of a built
  set has a forwarder.
-/
import Sagittarius.LocalRecords

open Codec

namespace Storage

/-- `ForwardZone`: a row of `forward_zones`. -/
structure ForwardZone where
  id : Nat
  zoneSuffix : String
  target : Option String
  enabled : Bool
  sortOrder : Int
  deriving DecidableEq, Repr

end Storage

namespace Resolver

/-- Default port of a bare-IP zone target. -/
def DEFAULT_FORWARD_PORT : UInt16 := 53

/-- `parse_target`. -/
def parseTarget (s : String) : Option SocketAddr :=
  match SocketAddr.parse s with
  | some sa => some sa
  | none => (IpAddr.parse s).map (fun ip => SocketAddr.new ip DEFAULT_FORWARD_PORT)

/-- `ForwardZoneSet`: the zones, and the targets that have a forwarder. -/
structure ForwardZoneSet where
  zones : HashMap String SocketAddr
  forwarders : List SocketAddr

namespace ForwardZoneSet

/-- `ForwardZoneSet::empty`. -/
def empty : ForwardZoneSet := ⟨∅, []⟩

/-- One row of the loop of `ForwardZoneSet::build`: a row without a usable
target or suffix is skipped. -/
def addZone (zones : HashMap String SocketAddr) (row : Storage.ForwardZone) :
    HashMap String SocketAddr :=
  match row.target.bind parseTarget with
  | none => zones
  | some target =>
    match Name.fromStr row.zoneSuffix with
    | .error _ => zones
    | .ok suffix => zones.insert suffix.inner target

/-- One forwarder for each distinct target. -/
def connect (forwarders : List SocketAddr) (target : SocketAddr) : List SocketAddr :=
  if target ∈ forwarders then forwarders else forwarders ++ [target]

/-- `ForwardZoneSet::build`. -/
def build (rows : List Storage.ForwardZone) : ForwardZoneSet :=
  let zones := rows.foldl addZone ∅
  ⟨zones, (zones.entries.map Sigma.snd).foldl connect []⟩

/-- `ForwardZoneSet::match_target`. -/
def matchTarget (set : ForwardZoneSet) (qname : Name) : Option SocketAddr :=
  if set.zones.entries = [] then none
  else
    match set.zones.lookup qname.inner with
    | some target => some target
    | none => probe (fun s => set.zones.lookup s) qname.inner.toList

theorem matchTarget_eq (set : ForwardZoneSet) (qname : Name) :
    set.matchTarget qname = qname.suffixes.findSome? (fun s => set.zones.lookup s) := by
  rw [matchTarget]
  split_ifs with hempty
  · have hlookup : ∀ s, set.zones.lookup s = none := by
      intro s
      rw [AList.lookup_eq_none, AList.mem_keys, AList.keys, hempty]
      simp
    symm
    rw [List.findSome?_eq_none_iff]
    intro s _
    exact hlookup s
  · rw [findSome_suffixes]
    cases set.zones.lookup qname.inner with
    | none => rfl
    | some target => rfl

theorem mem_foldl_connect {target : SocketAddr} : ∀ {targets forwarders : List SocketAddr},
    target ∈ targets ∨ target ∈ forwarders → target ∈ targets.foldl connect forwarders := by
  intro targets
  induction targets with
  | nil =>
    intro forwarders h
    simpa using h
  | cons t targets ih =>
    intro forwarders h
    have hkeep : ∀ u, u ∈ forwarders ∨ u = t → u ∈ connect forwarders t := by
      intro u hu
      rw [connect]
      split_ifs with ht
      · rcases hu with hu | rfl
        · exact hu
        · exact ht
      · simpa using hu
    rw [List.foldl_cons]
    refine ih ?_
    rcases h with h | h
    · rcases List.mem_cons.mp h with rfl | h
      · exact Or.inr (hkeep _ (Or.inr rfl))
      · exact Or.inl h
    · exact Or.inr (hkeep _ (Or.inl h))

theorem mem_forwarders_of_matchTarget {rows : List Storage.ForwardZone} {qname : Name}
    {target : SocketAddr} (h : (build rows).matchTarget qname = some target) :
    target ∈ (build rows).forwarders := by
  rw [matchTarget_eq] at h
  obtain ⟨s, _, hs⟩ := List.exists_of_findSome?_eq_some h
  refine mem_foldl_connect (Or.inl ?_)
  have hentry := AList.mem_lookup_iff.mp hs
  exact List.mem_map.mpr ⟨_, hentry, rfl⟩

end ForwardZoneSet

end Resolver

/-
Which forward zone a name belongs to (`resolver/forward_zone.rs`).

The zones of a list of rows, and the zone of a name, in terms of names and labels:

* `lookup_zones` — a suffix is forwarded to the target of its last usable row;
* `match_target_longest` — a name is forwarded to the target of its longest label suffix
  that is a zone, and that target has a forwarder.
-/
import Sagittarius.ForwardZones
import Sagittarius.LastWrite
import Sagittarius.LongestSuffix

open Codec LastWrite

namespace Resolver

namespace ForwardZoneSet

/-- The target that a row gives a zone: none if it is not a row of the zone, or if its
target cannot be read. -/
def targetFor (zone : Name) (row : Storage.ForwardZone) : Option SocketAddr :=
  if (Name.fromStr row.zoneSuffix).toOption = some zone then row.target.bind parseTarget else none

/-- The target of a zone: that of its last row with one. -/
def zoneTarget (rows : List Storage.ForwardZone) (zone : Name) : Option SocketAddr :=
  last (targetFor zone) rows

/-- The zone of some row is a label suffix of the name, the name itself included. -/
def Covers (rows : List Storage.ForwardZone) (zone n : Name) : Prop :=
  zone.IsLabelSuffix n ∧ ∃ target, zoneTarget rows zone = some target

/-- A row overwrites the target of its zone. -/
theorem lookup_addZone (zones : HashMap String SocketAddr) (row : Storage.ForwardZone)
    (zone : Name) :
    (addZone zones row).lookup zone.inner = (targetFor zone row).or (zones.lookup zone.inner) := by
  rw [addZone, targetFor]
  cases row.target.bind parseTarget with
  | none =>
    split_ifs
    · rfl
    · rfl
  | some target =>
    cases Name.fromStr row.zoneSuffix with
    | error e => rfl
    | ok suffix =>
      by_cases hzone : suffix = zone
      · subst hzone
        rw [Except.toOption, if_pos rfl]
        exact AList.lookup_insert zones
      · -- Zones are told apart by their text.
        have hinner : zone.inner ≠ suffix.inner := by
          intro hinner
          exact hzone (Name.ext_toList (by rw [hinner]))
        have hother : ¬ (Except.ok suffix : Except Codec.Error Name).toOption = some zone :=
          fun h => hzone (Option.some.inj h)
        rw [if_neg hother]
        exact AList.lookup_insert_ne hinner

/-- **The zones of the rows**: each has the target of its last row. -/
theorem lookup_zones (rows : List Storage.ForwardZone) (zone : Name) :
    (build rows).zones.lookup zone.inner = zoneTarget rows zone := by
  show (rows.foldl addZone ∅).lookup zone.inner = _
  rw [read_foldl (fun zones : HashMap String SocketAddr => zones.lookup zone.inner)
    (fun zones row => lookup_addZone zones row zone), AList.lookup_empty, Option.or_none, zoneTarget]

variable {rows : List Storage.ForwardZone} {n : Name}

theorem matchTarget_eq_findSome (h : n.labels ≠ []) : (build rows).matchTarget n =
    ((labelSuffixes n.labels).map labelText).findSome?
      (fun s => (build rows).zones.lookup s) := by
  rw [matchTarget_eq, Name.suffixes, if_neg h]

/-- The target of a name. -/
theorem matchTarget_eq_some_iff (h : n.labels ≠ []) {target : SocketAddr} :
    (build rows).matchTarget n = some target ↔ ∃ zone, Covers rows zone n ∧
      (∀ zone', Covers rows zone' n → zone'.labels.length ≤ zone.labels.length) ∧
      zoneTarget rows zone = some target := by
  rw [matchTarget_eq_findSome h, findSome_labelText_eq_some_iff (List.suffix_refl _)]
  simp only [lookup_zones]
  constructor
  · rintro ⟨zone, hsuffix, htarget, hlonger⟩
    refine ⟨zone, ⟨hsuffix, target, htarget⟩, ?_, htarget⟩
    rintro zone' ⟨hsuffix', target', htarget'⟩
    by_contra hlt
    rw [hlonger zone' hsuffix' (by omega)] at htarget'
    cases htarget'
  · rintro ⟨zone, ⟨hsuffix, -⟩, hlongest, htarget⟩
    refine ⟨zone, hsuffix, htarget, ?_⟩
    intro zone' hsuffix' hlt
    rw [Option.eq_none_iff_forall_ne_some]
    intro target' htarget'
    have hle := hlongest zone' ⟨hsuffix', target', htarget'⟩
    omega

/-- No target: no zone. -/
theorem matchTarget_eq_none_iff (h : n.labels ≠ []) :
    (build rows).matchTarget n = none ↔ ∀ zone, ¬ Covers rows zone n := by
  rw [matchTarget_eq_findSome h, findSome_labelText_eq_none_iff (List.suffix_refl _)]
  simp only [lookup_zones, Covers, not_and, not_exists, Option.eq_none_iff_forall_ne_some]
  rfl

/-- **The zone of a name is its longest one**: a name is forwarded to the target of the
longest zone among its label suffixes, which are no mere character suffixes; without such
a zone it is not forwarded; and what it is forwarded to has a forwarder. -/
theorem match_target_longest (rows : List Storage.ForwardZone) (n : Name) (h : n.labels ≠ []) :
    (∀ target, (build rows).matchTarget n = some target ↔ ∃ zone, Covers rows zone n ∧
      (∀ zone', Covers rows zone' n → zone'.labels.length ≤ zone.labels.length) ∧
      zoneTarget rows zone = some target) ∧
    ((build rows).matchTarget n = none ↔ ∀ zone, ¬ Covers rows zone n) ∧
    (∀ zone, Covers rows zone n →
      zone = n ∨ ∃ front, n.inner.toList = front ++ '.' :: zone.inner.toList) ∧
    ∀ target, (build rows).matchTarget n = some target → target ∈ (build rows).forwarders := by
  refine ⟨fun _ => matchTarget_eq_some_iff h, matchTarget_eq_none_iff h, ?_, ?_⟩
  · intro zone hzone
    exact hzone.1.ends_at_dot
  · intro target htarget
    exact mem_forwarders_of_matchTarget htarget

/-- Overlapping zones, one of them twice, and a row without a target. -/
def sampleZones : List Storage.ForwardZone :=
  [⟨1, "lan", some "10.0.0.1", true, 0⟩, ⟨2, "corp.lan", some "10.0.0.2", true, 1⟩,
    ⟨3, "CORP.lan.", some "10.0.0.3:5353", true, 2⟩, ⟨4, "host.corp.lan", none, true, 3⟩]

theorem match_target_longest_sample :
    ∃ n, Name.fromStr "host.corp.lan" = .ok n ∧
      (build sampleZones).matchTarget n = SocketAddr.parse "10.0.0.3:5353" ∧
      ∀ target, (build sampleZones).matchTarget n = some target →
        target ∈ (build sampleZones).forwarders := by
  have hname : (Name.fromStr "host.corp.lan").toOption.any (fun n =>
      n.labels ≠ [] ∧
        (build sampleZones).matchTarget n = SocketAddr.parse "10.0.0.3:5353") = true := by
    decide
  obtain ⟨n, hn, hsample⟩ := exists_ok_of_any hname
  obtain ⟨hlabels, hmatch⟩ := of_decide_eq_true hsample
  exact ⟨n, hn, hmatch, (match_target_longest sampleZones n hlabels).2.2.2⟩

end ForwardZoneSet

end Resolver

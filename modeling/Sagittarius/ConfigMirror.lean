/-
What a secondary holds after an apply (`sync/apply.rs` against
`build_config_snapshot`).

* `snapshot_mirrored_iff` — the secondary builds the primary's snapshot exactly
  under conditions on the zones, the domains and the record names;
* `sameMirror_of_apply` — applied again, a snapshot changes no mirrored row;
* `mirror_faithful_iff` — both together.
-/
import Sagittarius.ReplacedSections
import Sagittarius.ReconciledSections
import Sagittarius.ListSections

open Codec Storage Resolver

namespace Sync

variable {clock : Nat → Int}

/-- Two databases hold the same mirrored rows, under whatever ids and timestamps. -/
structure SameMirror (db db' : Db) : Prop where
  settings : db'.settings.columns = db.settings.columns
  upstreams : wireRows UpstreamDto.ofRow db'.upstreams = wireRows UpstreamDto.ofRow db.upstreams
  blacklist : domains db'.blacklist = domains db.blacklist
  allowlist : domains db'.allowlist = domains db.allowlist
  localRecords : wireRows LocalRecordDto.ofRow db'.localRecords =
    wireRows LocalRecordDto.ofRow db.localRecords
  forwardZones : wireRows ForwardZoneDto.ofRow db'.forwardZones =
    wireRows ForwardZoneDto.ofRow db.forwardZones
  adminUsers : wireRows AdminUserDto.ofRow db'.adminUsers = wireRows AdminUserDto.ofRow db.adminUsers
  blocklists : wireRows BlocklistSourceDto.ofRow db'.blocklists =
    wireRows BlocklistSourceDto.ofRow db.blocklists

/-- The secondary mirrors the primary: it builds the same snapshot, which has the
same version, and another apply of the snapshot changes no mirrored row. -/
structure Faithful (primary : Db) (snap : ConfigSnapshot) (db : Db) : Prop where
  snapshot : buildConfigSnapshot db = .ok snap
  version : ∀ version : ConfigSnapshot → String,
    (buildConfigSnapshot db).map version = (buildConfigSnapshot primary).map version
  again : ∀ (clock : Nat → Int) (db' : Db) (r : Option SyncError),
    applyConfigSnapshot clock snap db = (db', r) → SameMirror db db'

/-- What an apply needs of the two databases: a zone on both sides has the same
place in the order, a domain on one side only is in normal form, and so are the
names of the primary's records. -/
structure Mirrorable (primary db : Db) : Prop where
  zones : ∀ z ∈ primary.forwardZones.rows, ∀ z' ∈ db.forwardZones.rows,
    z'.2.zoneSuffix = z.2.zoneSuffix → z'.2.sortOrder = z.2.sortOrder
  blacklist : ∀ d, OneSided db.blacklist primary.blacklist d → Lists.normalize d = .ok d
  allowlist : ∀ d, OneSided db.allowlist primary.allowlist d → Lists.normalize d = .ok d
  records : ∀ r ∈ primary.localRecords.rows, normalizeLocalName r.2.name = r.2.name

/-- A section that an apply came to, or did not. -/
theorem section_of_apply {snap : ConfigSnapshot} {db db' : Db} {r : Option SyncError}
    (h : applyConfigSnapshot clock snap db = (db', r)) (k : Section) :
    k.Untouched db db' ∨ ∃ r, k.Returns clock snap db db' r := by
  cases r with
  | none => exact .inr ⟨none, applyConfigSnapshot_ok_iff.mp h k⟩
  | some e =>
    obtain ⟨pre, j, post, horder, hpre, hj, hpost⟩ := applyConfigSnapshot_error h
    have hk : k ∈ pre ++ j :: post := horder ▸ Section.mem_order k
    rcases List.mem_append.mp hk with hk | hk
    · exact .inr ⟨none, hpre k hk⟩
    · rcases List.mem_cons.mp hk with rfl | hk
      · exact .inr ⟨some e, hj⟩
      · exact .inl (hpost k hk)

section Apply

variable {primary db db' : Db} {snap : ConfigSnapshot}

/-- The snapshot after an apply is the primary's exactly under the conditions. -/
theorem snapshot_mirrored_iff (hsnap : buildConfigSnapshot primary = .ok snap)
    (h : applyConfigSnapshot clock snap db = (db', none)) :
    buildConfigSnapshot db' = .ok snap ↔ Mirrorable primary db := by
  obtain ⟨hsettings, hupstreams, hblack, hallow, hrecords, hzones, hblocklists, husers⟩ :=
    buildConfigSnapshot_ok_iff.mp hsnap
  have hall := applyConfigSnapshot_ok_iff.mp h
  have hblack' := list_mirrored_iff hblack (hall .blacklist)
  have hallow' := list_mirrored_iff hallow (hall .allowlist)
  have hrecords' := localRecords_mirrored_iff hrecords (hall .localRecords)
  have hzones' := forwardZones_mirrored_iff hzones (hall .forwardZones)
  rw [buildConfigSnapshot_ok_iff]
  constructor
  · rintro ⟨_, _, hb, ha, hr, hz, _, _⟩
    exact ⟨hzones'.mp hz, hblack'.mp hb, hallow'.mp ha, hrecords'.mp hr⟩
  · intro hcond
    exact ⟨settings_mirrored hsettings (hall .settings),
      upstreams_mirrored hupstreams (hall .upstreams), hblack'.mpr hcond.blacklist,
      hallow'.mpr hcond.allowlist, hrecords'.mpr hcond.records, hzones'.mpr hcond.zones,
      blocklists_mirrored hblocklists (hall .blocklists),
      adminUsers_mirrored husers (hall .adminUsers)⟩

/-- A mirror with the snapshot of the primary is not changed by another apply,
whether it succeeds or not. -/
theorem sameMirror_of_apply {clock' : Nat → Int} {db'' : Db} {r : Option SyncError}
    (hsnap : buildConfigSnapshot primary = .ok snap)
    (h : applyConfigSnapshot clock snap db = (db', none)) (hmirror : buildConfigSnapshot db' = .ok snap)
    (h' : applyConfigSnapshot clock' snap db' = (db'', r)) : SameMirror db' db'' := by
  obtain ⟨hsettings, _, _, _, _, hzones, hblocklists, husers⟩ :=
    buildConfigSnapshot_ok_iff.mp hsnap
  obtain ⟨_, _, hblack, hallow, _, _, _, _⟩ := buildConfigSnapshot_ok_iff.mp hmirror
  have hall := applyConfigSnapshot_ok_iff.mp h
  have hagain := section_of_apply h'
  refine ⟨?_, ?_, ?_, ?_, ?_, ?_, ?_, ?_⟩
  · rcases hagain .settings with hsame | ⟨_, hreturns⟩
    · exact congrArg SettingsRow.columns hsame
    · exact settings_stable hsettings (hall .settings) hreturns
  · rcases hagain .upstreams with hsame | ⟨_, hreturns⟩
    · exact congrArg (wireRows UpstreamDto.ofRow) hsame
    · exact upstreams_stable (hall .upstreams) hreturns
  · rcases hagain .blacklist with hsame | ⟨_, hreturns⟩
    · exact congrArg domains hsame
    · exact congrArg domains (list_stable hblack hreturns)
  · rcases hagain .allowlist with hsame | ⟨_, hreturns⟩
    · exact congrArg domains hsame
    · exact congrArg domains (list_stable hallow hreturns)
  · rcases hagain .localRecords with hsame | ⟨_, hreturns⟩
    · exact congrArg (wireRows LocalRecordDto.ofRow) hsame
    · exact localRecords_stable (hall .localRecords) hreturns
  · rcases hagain .forwardZones with hsame | ⟨_, hreturns⟩
    · exact congrArg (wireRows ForwardZoneDto.ofRow) hsame
    · have hnodup := hzones ▸ forwardZones_nodup primary.forwardZones
      exact congrArg (wireRows ForwardZoneDto.ofRow)
        (forwardZones_stable hnodup (hall .forwardZones) hreturns)
  · rcases hagain .adminUsers with hsame | ⟨_, hreturns⟩
    · exact congrArg (wireRows AdminUserDto.ofRow) hsame
    · exact adminUsers_stable (adminUsers_nodup husers) (hall .adminUsers) hreturns
  · rcases hagain .blocklists with hsame | ⟨_, hreturns⟩
    · exact congrArg (wireRows BlocklistSourceDto.ofRow) hsame
    · exact congrArg (wireRows BlocklistSourceDto.ofRow)
        (blocklists_stable (blocklists_nodup hblocklists) (hall .blocklists) hreturns)

/-- **Mirror fidelity.**  After a successful apply of a primary's snapshot the
secondary mirrors the primary exactly when the zones on both sides have the same
places in the order, the domains on one side only are in normal form and so are
the names of the primary's records. -/
theorem mirror_faithful_iff (hsnap : buildConfigSnapshot primary = .ok snap)
    (h : applyConfigSnapshot clock snap db = (db', none)) :
    Faithful primary snap db' ↔ Mirrorable primary db := by
  rw [← snapshot_mirrored_iff hsnap h]
  constructor
  · intro hfaithful
    exact hfaithful.snapshot
  · intro hmirror
    refine ⟨hmirror, ?_, ?_⟩
    · intro version
      rw [hmirror, hsnap]
    · intro clock' db'' r h'
      exact sameMirror_of_apply hsnap h hmirror h'

end Apply

/-- The settings row of a fresh database. -/
def freshSettings : SettingsRow where
  columns := ⟨1, 86400, 3600, 100000, "null-ip", none, none, 86400, "auto", 1, 30, "random", 2⟩
  checked := by decide

/-- A database without rows. -/
def freshDb : Db where
  settings := freshSettings
  upstreams := .empty _
  blacklist := .empty _
  allowlist := .empty _
  localRecords := .empty _
  forwardZones := .empty _
  adminUsers := .empty _
  blocklists := .empty _

/-- A database with a forward zone at a place in the order. -/
def dbWithZone (place : Int) : Db :=
  { freshDb with
    forwardZones :=
      ⟨[(1, ⟨"lan", some "10.0.0.1", true, place⟩)], 2, List.pairwise_singleton _ _,
        List.forall_mem_singleton.mpr Nat.one_lt_two, List.nodup_singleton _, fun _ _ => rfl⟩ }

/-- The snapshot of that database. -/
def zoneSnapshot (place : Int) : ConfigSnapshot where
  settings := ⟨1, 86400, 3600, 100000, "null-ip", none, none, 86400, "auto", true, 30, "random", 2⟩
  upstreams := []
  blacklist := []
  allowlist := []
  localRecords := []
  forwardZones := [⟨"lan", some "10.0.0.1", true, place⟩]
  blocklists := []
  adminUsers := []

theorem build_dbWithZone (place : Int) :
    buildConfigSnapshot (dbWithZone place) = .ok (zoneSnapshot place) := by
  have hsettings : settingsSection freshSettings = .ok (zoneSnapshot 0).settings := by
    decide
  exact buildConfigSnapshot_ok_iff.mpr ⟨hsettings, rfl, rfl, rfl, rfl, rfl, rfl, rfl⟩

theorem mirror_faithful_unmoved :
    ∃ db', applyConfigSnapshot (fun _ => 0) (zoneSnapshot 1) (dbWithZone 1) = (db', none) ∧
      Faithful (dbWithZone 1) (zoneSnapshot 1) db' := by
  have happly : applyConfigSnapshot (fun _ => 0) (zoneSnapshot 1) (dbWithZone 1) = (_, none) :=
    Prod.ext rfl (show (applyConfigSnapshot (fun _ => 0) (zoneSnapshot 1) (dbWithZone 1)).2 = none by
      decide)
  refine ⟨_, happly, (mirror_faithful_iff (build_dbWithZone 1) happly).mpr ?_⟩
  refine ⟨?_, ?_, ?_, ?_⟩
  · intro z hz z' hz' _
    rw [List.mem_singleton.mp hz, List.mem_singleton.mp hz']
  · rintro d (⟨hd, _⟩ | ⟨hd, _⟩) <;> cases hd
  · rintro d (⟨hd, _⟩ | ⟨hd, _⟩) <;> cases hd
  · intro r hr
    cases hr

/-- A zone that moved on the primary stays at its old place on the secondary. -/
theorem moved_zone_stays :
    ¬ ∀ (clock : Nat → Int) (primary db db' : Db) (snap : ConfigSnapshot),
      buildConfigSnapshot primary = .ok snap → applyConfigSnapshot clock snap db = (db', none) →
      Faithful primary snap db' := by
  intro hall
  have happly : (applyConfigSnapshot (fun _ => 0) (zoneSnapshot 2) (dbWithZone 1)).2 = none := by
    decide
  have hfaithful := hall _ _ _ _ _ (build_dbWithZone 2) (Prod.ext rfl happly)
  have hzones := (buildConfigSnapshot_ok_iff.mp hfaithful.snapshot).2.2.2.2.2.1
  have hkept : forwardZoneSection
      (applyConfigSnapshot (fun _ => 0) (zoneSnapshot 2) (dbWithZone 1)).1.forwardZones =
        (zoneSnapshot 1).forwardZones := by
    decide
  exact absurd (hkept.symm.trans hzones) (by decide)

end Sync

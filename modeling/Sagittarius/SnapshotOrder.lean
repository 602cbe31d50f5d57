/-
The snapshot and the order of the rows.

A list query returns the rows in some order that its `ORDER BY` allows, and
`build_config_snapshot` sorts every section again.  So the snapshot depends on the
content only where the sort keys tell the rows apart.  All keys are unique but that
of the upstreams, whose addresses may repeat.

* `snapshot_eq_build` — the model of the other modules is one of these readings;
* `snapshot_ok_iff` — a snapshot as a function of the rows that were returned;
* `snapshot_order_free_iff` — the snapshot depends on the content only when no two
  upstreams with the same place and address differ.
-/
import Mathlib.Data.List.Sort
import Sagittarius.ReplacedSections
import Sagittarius.ConfigSync

open Storage

namespace Sync

/-! ### Readings -/

/-- The answer of a list query: the rows of the table in an order its `ORDER BY`
allows. -/
structure Returned {α κ : Type} [LinearOrder κ] (key : α → κ) (rows : List α) where
  list : List α
  perm : list.Perm rows
  sorted : list.Pairwise (fun a b => key a ≤ key b)

/-- The answer with ties in id order. -/
def Returned.inIdOrder {α κ : Type} [LinearOrder κ] (key : α → κ) (rows : List α) :
    Returned key rows := ⟨orderBy key rows, orderBy_perm key rows, orderBy_pairwise key rows⟩

/-- The answers `build_config_snapshot` gets from a database. -/
structure Reading (db : Db) where
  upstreams : Returned (·.2.sortOrder) db.upstreams.rows
  blacklist : Returned (·.2) db.blacklist.rows
  allowlist : Returned (·.2) db.allowlist.rows
  localRecords : Returned (fun r => toLex (r.2.name, r.2.recordType)) db.localRecords.rows
  forwardZones : Returned (·.2.sortOrder) db.forwardZones.rows
  blocklists : Returned (·.1) db.blocklists.rows
  adminUsers : Returned (·.2.username) db.adminUsers.rows

namespace Reading

variable {db db' : Db}

/-- The answers with ties in id order. -/
def inIdOrder (db : Db) : Reading db :=
  ⟨.inIdOrder _ _, .inIdOrder _ _, .inIdOrder _ _, .inIdOrder _ _, .inIdOrder _ _, .inIdOrder _ _,
    .inIdOrder _ _⟩

/-- `build_config_snapshot` on these answers. -/
def snapshot (r : Reading db) : Except Storage.Error ConfigSnapshot := do
  let settings ← settingsSection db.settings
  let upstreams ← (r.upstreams.list.mapM Upstreams.decode).map (fun us =>
    orderBy UpstreamDto.sortKey (us.map UpstreamDto.ofUpstream))
  let localRecords ← (r.localRecords.list.mapM LocalRecords.decode).map (fun rs =>
    orderBy LocalRecordDto.sortKey (rs.map LocalRecordDto.ofRecord))
  let blocklists ← (r.blocklists.list.mapM Blocklists.decode).map (fun bs =>
    orderBy BlocklistSourceDto.url (bs.map BlocklistSourceDto.ofBlocklist))
  let adminUsers ← (r.adminUsers.list.mapM AdminUsers.decode).map (fun us =>
    us.map AdminUserDto.ofUser)
  pure {
    settings, upstreams
    blacklist := orderBy id (r.blacklist.list.map Prod.snd)
    allowlist := orderBy id (r.allowlist.list.map Prod.snd)
    localRecords
    forwardZones := orderBy ForwardZoneDto.sortKey
      ((r.forwardZones.list.map ForwardZones.decode).map ForwardZoneDto.ofZone)
    blocklists, adminUsers }

/-- `build_config_snapshot` with ties in id order. -/
theorem snapshot_eq_build (db : Db) : (inIdOrder db).snapshot = buildConfigSnapshot db := by
  have hlist : ∀ t : DomainTable,
      orderBy id ((orderBy Prod.snd t.rows).map Prod.snd) = listSection t :=
    fun t => congrArg (orderBy id) (map_orderBy id Prod.snd t.rows)
  have hzones : (orderBy (fun r => r.2.sortOrder) db.forwardZones.rows).map ForwardZones.decode =
      ForwardZones.list db.forwardZones := map_orderBy ForwardZone.sortOrder ForwardZones.decode _
  have hsources : (inIdOrder db).blocklists.list = db.blocklists.rows :=
    orderBy_eq_self (db.blocklists.ids_lt_of_sorted.imp (fun h => Nat.le_of_lt h))
  have hblack : orderBy id ((inIdOrder db).blacklist.list.map Prod.snd) = listSection db.blacklist :=
    hlist db.blacklist
  have hallow : orderBy id ((inIdOrder db).allowlist.list.map Prod.snd) = listSection db.allowlist :=
    hlist db.allowlist
  have hforward : orderBy ForwardZoneDto.sortKey (((inIdOrder db).forwardZones.list.map
      ForwardZones.decode).map ForwardZoneDto.ofZone) = forwardZoneSection db.forwardZones :=
    congrArg (fun zs => orderBy ForwardZoneDto.sortKey (zs.map ForwardZoneDto.ofZone)) hzones
  rw [snapshot, hsources, hblack, hallow, hforward]
  rfl

/-- The snapshot, given the settings, as a function of the rows that were returned. -/
def sections (r : Reading db) (settings : SettingsDto) : ConfigSnapshot where
  settings := settings
  upstreams := orderBy UpstreamDto.sortKey (r.upstreams.list.map (fun u => .ofRow u.2))
  blacklist := orderBy id (r.blacklist.list.map Prod.snd)
  allowlist := orderBy id (r.allowlist.list.map Prod.snd)
  localRecords := orderBy LocalRecordDto.sortKey (r.localRecords.list.map (fun x => .ofRow x.2))
  forwardZones := orderBy ForwardZoneDto.sortKey (r.forwardZones.list.map (fun z => .ofRow z.2))
  blocklists := orderBy BlocklistSourceDto.url (r.blocklists.list.map (fun b => .ofRow b.2))
  adminUsers := orderBy AdminUserDto.username (r.adminUsers.list.map (fun u => .ofRow u.2))

end Reading

/-- Every row can be decoded. -/
structure Readable (db : Db) : Prop where
  settings : ∃ s, Settings.get db.settings = .ok s
  upstreams : ∀ r ∈ db.upstreams.rows, ∃ u, Upstreams.decode r = .ok u
  localRecords : ∀ r ∈ db.localRecords.rows, ∃ x, LocalRecords.decode r = .ok x
  blocklists : ∀ r ∈ db.blocklists.rows, ∃ b, Blocklists.decode r = .ok b
  adminUsers : ∀ r ∈ db.adminUsers.rows, ∃ u, AdminUsers.decode r = .ok u

namespace Reading

variable {db db' : Db}

/-- A section of the rows that were returned. -/
theorem section_ok_iff {ε α β γ δ κ : Type} [LinearOrder κ] {key : α → κ} {rows : List α}
    (r : Returned key rows) {f : α → Except ε β} {g : β → γ} {w : α → γ}
    (hw : ∀ a b, f a = .ok b → g b = w a) (F : List γ → δ) {d : δ} :
    (r.list.mapM f).map (fun bs => F (bs.map g)) = .ok d ↔
      (∀ a ∈ rows, ∃ b, f a = .ok b) ∧ d = F (r.list.map w) := by
  rw [map_mapM_ok_iff hw F]
  simp only [r.perm.mem_iff]

/-- The users are not sorted again: their query has done it. -/
theorem users_sorted (r : Reading db) :
    r.adminUsers.list.map (fun u => AdminUserDto.ofRow u.2) =
      orderBy AdminUserDto.username (r.adminUsers.list.map (fun u => .ofRow u.2)) := by
  have hsorted : (r.adminUsers.list.map (fun u => AdminUserDto.ofRow u.2)).Pairwise
      (fun a b => a.username ≤ b.username) := List.pairwise_map.mpr r.adminUsers.sorted
  exact (orderBy_eq_self hsorted).symm

/-- When a snapshot can be built, and what it then is. -/
theorem snapshot_ok_iff (r : Reading db) {s : ConfigSnapshot} :
    r.snapshot = .ok s ↔
      Readable db ∧ ∃ settings, Settings.get db.settings = .ok settings ∧
        s = r.sections (.ofSettings settings) := by
  constructor
  · intro h
    -- The reads in the order of the source; the first that fails decides.
    obtain ⟨_, hsettings, h⟩ := bind_ok_iff.mp h
    obtain ⟨_, hupstreams, h⟩ := bind_ok_iff.mp h
    obtain ⟨_, hrecords, h⟩ := bind_ok_iff.mp h
    obtain ⟨_, hblocklists, h⟩ := bind_ok_iff.mp h
    obtain ⟨_, husers, h⟩ := bind_ok_iff.mp h
    obtain ⟨settings, hget, rfl⟩ := settingsSection_ok_iff.mp hsettings
    obtain ⟨hups, rfl⟩ := (section_ok_iff r.upstreams ofUpstream_of_decode _).mp hupstreams
    obtain ⟨hrecs, rfl⟩ := (section_ok_iff r.localRecords ofRecord_of_decode _).mp hrecords
    obtain ⟨hsrcs, rfl⟩ := (section_ok_iff r.blocklists ofBlocklist_of_decode _).mp hblocklists
    obtain ⟨husrs, rfl⟩ :=
      (section_ok_iff r.adminUsers ofUser_of_decode (fun us => us)).mp husers
    cases h
    refine ⟨⟨⟨settings, hget⟩, hups, hrecs, hsrcs, husrs⟩, settings, hget, ?_⟩
    -- The users come sorted from the query, the other sections are sorted here.
    rw [sections, ← r.users_sorted, List.map_map]
    rfl
  · rintro ⟨hread, settings, hget, rfl⟩
    refine bind_ok_iff.mpr ⟨_, settingsSection_ok_iff.mpr ⟨settings, hget, rfl⟩, ?_⟩
    refine bind_ok_iff.mpr ⟨_, (section_ok_iff r.upstreams ofUpstream_of_decode _).mpr
      ⟨hread.upstreams, rfl⟩, ?_⟩
    refine bind_ok_iff.mpr ⟨_, (section_ok_iff r.localRecords ofRecord_of_decode _).mpr
      ⟨hread.localRecords, rfl⟩, ?_⟩
    refine bind_ok_iff.mpr ⟨_, (section_ok_iff r.blocklists ofBlocklist_of_decode _).mpr
      ⟨hread.blocklists, rfl⟩, ?_⟩
    refine bind_ok_iff.mpr ⟨_, (section_ok_iff r.adminUsers ofUser_of_decode (fun us => us)).mpr
      ⟨hread.adminUsers, rfl⟩, ?_⟩
    rw [sections, ← r.users_sorted, List.map_map]
    rfl

end Reading

/-! ### The same content -/

/-- A source without the time of its last update. -/
def untimedSource (b : BlocklistRow) : BlocklistRow := { b with lastUpdated := none }

/-- A user without the time of the last change. -/
def untimedUser (u : AdminUserRow) : AdminUserRow := { u with updatedAt := 0 }

/-- Two tables hold the same rows up to ids and insertion order, as far as `view`
shows them. -/
def SameContent {ρ κ β : Type} {S : Sql.Schema ρ κ} (view : ρ → β) (t t' : Sql.Table S) : Prop :=
  (t.rows.map (fun r => view r.2)).Perm (t'.rows.map (fun r => view r.2))

/-- Two databases hold the same rows up to ids, timestamps and insertion order. -/
structure SameRows (db db' : Db) : Prop where
  settings : db.settings = db'.settings
  upstreams : SameContent id db.upstreams db'.upstreams
  blacklist : SameContent id db.blacklist db'.blacklist
  allowlist : SameContent id db.allowlist db'.allowlist
  localRecords : SameContent id db.localRecords db'.localRecords
  forwardZones : SameContent id db.forwardZones db'.forwardZones
  blocklists : SameContent untimedSource db.blocklists db'.blocklists
  adminUsers : SameContent untimedUser db.adminUsers db'.adminUsers

/-- No two upstreams with the same place and address differ. -/
def UpstreamsTold (db : Db) : Prop :=
  ∀ r ∈ db.upstreams.rows, ∀ r' ∈ db.upstreams.rows,
    r.2.sortOrder = r'.2.sortOrder → r.2.address = r'.2.address → r.2 = r'.2

section Content

variable {ρ κ β δ κ' : Type} {S : Sql.Schema ρ κ} {view : ρ → β} {t t' : Sql.Table S}

/-- Rows that are read by what `view` shows of them can be read in both tables. -/
theorem SameContent.readable {Read : Nat × ρ → Prop}
    (hview : ∀ {r r' : Nat × ρ}, view r.2 = view r'.2 → Read r → Read r')
    (h : SameContent view t t') (hread : ∀ r ∈ t.rows, Read r) : ∀ r ∈ t'.rows, Read r := by
  intro r' hr'
  have hmem : view r'.2 ∈ t.rows.map (fun r => view r.2) :=
    h.mem_iff.mpr (List.mem_map.mpr ⟨r', hr', rfl⟩)
  obtain ⟨r, hr, heq⟩ := List.mem_map.mp hmem
  exact hview heq (hread r hr)

/-- What was returned of two tables with the same content. -/
theorem SameContent.returned {κ₁ κ₂ : Type} [LinearOrder κ₁] [LinearOrder κ₂] {key : Nat × ρ → κ₁}
    {key' : Nat × ρ → κ₂} (h : SameContent view t t') (r : Returned key t.rows)
    (r' : Returned key' t'.rows) (w : β → δ) :
    (r.list.map (fun a => w (view a.2))).Perm (r'.list.map (fun a => w (view a.2))) := by
  have hrows : ((t.rows.map (fun a => view a.2)).map w).Perm ((t'.rows.map (fun a => view a.2)).map w) :=
    h.map w
  rw [List.map_map, List.map_map] at hrows
  exact ((r.perm.map _).trans hrows).trans (r'.perm.map _).symm

/-- A section whose sort key determines the unique key of its table. -/
theorem SameContent.section_eq {κ₁ κ₂ : Type} [LinearOrder κ'] [LinearOrder κ₁] [LinearOrder κ₂]
    {key : Nat × ρ → κ₁} {key' : Nat × ρ → κ₂} (h : SameContent view t t')
    (r : Returned key t.rows) (r' : Returned key' t'.rows) (w : β → δ) (sortKey : δ → κ')
    (toKey : κ' → κ) (hkey : ∀ a, toKey (sortKey (w (view a.2))) = S.keyOf a) :
    orderBy sortKey (r.list.map (fun a => w (view a.2))) =
      orderBy sortKey (r'.list.map (fun a => w (view a.2))) := by
  refine orderBy_eq_of_inj (h.returned r r' w) ?_
  intro d hd d' hd' hsame
  obtain ⟨a, ha, rfl⟩ := List.mem_map.mp hd
  obtain ⟨a', ha', rfl⟩ := List.mem_map.mp hd'
  have hkeys : S.keyOf a = S.keyOf a' := by
    rw [← hkey a, ← hkey a', hsame]
  rw [Sql.Table.eq_of_key_eq (r.perm.mem_iff.mp ha) (r.perm.mem_iff.mp ha') hkeys]

end Content

/-- Whether a row can be decoded depends neither on its id nor on its times. -/
theorem upstream_readable {r r' : Nat × UpstreamRow} (heq : r.2 = r'.2)
    (h : ∃ u, Upstreams.decode r = .ok u) : ∃ u, Upstreams.decode r' = .ok u := by
  obtain ⟨u, hu⟩ := h
  rw [Upstreams.decode, heq] at hu
  rw [Upstreams.decode]
  split at hu
  · cases hu
  · exact ⟨_, rfl⟩

theorem record_readable {r r' : Nat × LocalRecordRow} (heq : r.2 = r'.2)
    (h : ∃ x, LocalRecords.decode r = .ok x) : ∃ x, LocalRecords.decode r' = .ok x := by
  obtain ⟨x, hx⟩ := h
  rw [LocalRecords.decode, heq] at hx
  rw [LocalRecords.decode]
  split at hx
  · cases hx
  · split_ifs at hx with httl
    exact ⟨_, if_pos httl⟩

theorem source_readable {r r' : Nat × BlocklistRow} (heq : untimedSource r.2 = untimedSource r'.2)
    (h : ∃ b, Blocklists.decode r = .ok b) : ∃ b, Blocklists.decode r' = .ok b := by
  obtain ⟨b, hb⟩ := h
  have hformat : r.2.format = r'.2.format := by
    show (untimedSource r.2).format = _
    rw [heq, untimedSource]
  have hcount : r.2.entryCount = r'.2.entryCount := by
    show (untimedSource r.2).entryCount = _
    rw [heq, untimedSource]
  rw [Blocklists.decode, hformat, hcount] at hb
  rw [Blocklists.decode]
  split at hb
  · cases hb
  · split_ifs at hb with hpos
    exact ⟨_, if_pos hpos⟩

theorem user_readable {r r' : Nat × AdminUserRow} (heq : untimedUser r.2 = untimedUser r'.2)
    (h : ∃ u, AdminUsers.decode r = .ok u) : ∃ u, AdminUsers.decode r' = .ok u := by
  obtain ⟨u, hu⟩ := h
  have hrole : r.2.role = r'.2.role := by
    show (untimedUser r.2).role = _
    rw [heq, untimedUser]
  rw [AdminUsers.decode, hrole] at hu
  rw [AdminUsers.decode]
  split at hu
  · cases hu
  · exact ⟨_, rfl⟩

section Same

variable {db db' : Db}

/-- What can be read in a database can be read in one with the same rows. -/
theorem SameRows.readable (h : SameRows db db') (hread : Readable db) : Readable db' where
  settings := h.settings ▸ hread.settings
  upstreams := h.upstreams.readable upstream_readable hread.upstreams
  localRecords := h.localRecords.readable record_readable hread.localRecords
  blocklists := h.blocklists.readable source_readable hread.blocklists
  adminUsers := h.adminUsers.readable user_readable hread.adminUsers

theorem SameRows.symm (h : SameRows db db') : SameRows db' db :=
  ⟨h.settings.symm, List.Perm.symm h.upstreams, List.Perm.symm h.blacklist,
    List.Perm.symm h.allowlist, List.Perm.symm h.localRecords, List.Perm.symm h.forwardZones,
    List.Perm.symm h.blocklists, List.Perm.symm h.adminUsers⟩

/-- The upstreams of two databases with the same rows, when their sort key tells them
apart. -/
theorem upstreams_eq (h : SameRows db db') (htold : UpstreamsTold db) (r : Reading db)
    (r' : Reading db') :
    orderBy UpstreamDto.sortKey (r.upstreams.list.map (fun u => .ofRow u.2)) =
      orderBy UpstreamDto.sortKey (r'.upstreams.list.map (fun u => .ofRow u.2)) := by
  refine orderBy_eq_of_inj (h.upstreams.returned r.upstreams r'.upstreams UpstreamDto.ofRow) ?_
  intro d hd d' hd' hsame
  obtain ⟨u, hu, rfl⟩ := List.mem_map.mp hd
  obtain ⟨u', hu', rfl⟩ := List.mem_map.mp hd'
  have hkey : (u.2.sortOrder, u.2.address) = (u'.2.sortOrder, u'.2.address) := toLex.injective hsame
  obtain ⟨horder, haddress⟩ := Prod.mk.inj hkey
  have hmem : u ∈ db.upstreams.rows := r.upstreams.perm.mem_iff.mp hu
  have hmem' : u' ∈ db.upstreams.rows := r.upstreams.perm.mem_iff.mp hu'
  exact congrArg UpstreamDto.ofRow (htold u hmem u' hmem' horder haddress)

/-- The other sections need no condition. -/
theorem sections_eq (h : SameRows db db') (htold : UpstreamsTold db) (r : Reading db)
    (r' : Reading db') (settings : SettingsDto) : r.sections settings = r'.sections settings := by
  rw [Reading.sections, Reading.sections, ConfigSnapshot.mk.injEq]
  refine ⟨rfl, upstreams_eq h htold r r', ?_, ?_, ?_, ?_, ?_, ?_⟩
  · exact h.blacklist.section_eq r.blacklist r'.blacklist id id id (fun _ => rfl)
  · exact h.allowlist.section_eq r.allowlist r'.allowlist id id id (fun _ => rfl)
  · exact h.localRecords.section_eq r.localRecords r'.localRecords .ofRow
      LocalRecordDto.sortKey ofLex (fun _ => rfl)
  · exact h.forwardZones.section_eq r.forwardZones r'.forwardZones .ofRow
      ForwardZoneDto.sortKey (fun k => (ofLex k).2) (fun _ => rfl)
  · exact h.blocklists.section_eq r.blocklists r'.blocklists .ofRow
      BlocklistSourceDto.url id (fun _ => rfl)
  · exact h.adminUsers.section_eq r.adminUsers r'.adminUsers .ofRow
      AdminUserDto.username id (fun _ => rfl)

/-- The sort key of an upstream, of its row. -/
def upstreamKey (r : Nat × UpstreamRow) : Lex (Int × String) := toLex (r.2.sortOrder, r.2.address)

/-- A reading whose upstreams come in the order of their sort key already. -/
def readingOf {l : List (Nat × UpstreamRow)} (h : l.Perm db.upstreams.rows) : Reading db :=
  { Reading.inIdOrder db with
    upstreams := {
      list := orderBy upstreamKey l
      perm := (orderBy_perm _ _).trans h
      sorted := (orderBy_pairwise upstreamKey l).imp (fun hle => by
        rcases Prod.Lex.toLex_le_toLex.mp hle with hlt | ⟨heq, _⟩
        · exact le_of_lt hlt
        · exact le_of_eq heq) } }

theorem upstreams_readingOf {l : List (Nat × UpstreamRow)} (h : l.Perm db.upstreams.rows)
    (settings : SettingsDto) :
    ((readingOf h).sections settings).upstreams =
      (orderBy upstreamKey l).map (fun u => .ofRow u.2) :=
  orderBy_eq_self (List.pairwise_map.mpr (orderBy_pairwise upstreamKey l))

theorem SameRows.refl (db : Db) : SameRows db db :=
  ⟨rfl, .refl _, .refl _, .refl _, .refl _, .refl _, .refl _, .refl _⟩

end Same

/-- Two answers of `build_config_snapshot` have the same snapshot, if any, and the
same version. -/
def SameAnswer (digest : ConfigSnapshot → List UInt8) (x y : Except Storage.Error ConfigSnapshot) :
    Prop :=
  x.toOption = y.toOption ∧
    (x.map (·.version digest)).toOption = (y.map (·.version digest)).toOption

section Main

variable {digest : ConfigSnapshot → List UInt8} {db db' : Db}

theorem toOption_eq_iff {ε α : Type} {x y : Except ε α} :
    x.toOption = y.toOption ↔ ∀ a, x = .ok a ↔ y = .ok a := by
  cases x with
  | error e =>
    cases y with
    | error e' => simp [Except.toOption]
    | ok b => simp [Except.toOption]
  | ok a =>
    cases y with
    | error e => simp [Except.toOption]
    | ok b =>
      constructor
      · intro h a'
        rw [Option.some.inj h]
      · intro h
        exact congrArg some (Except.ok.inj ((h a).mp rfl)).symm

theorem toOption_map {ε α β : Type} (x : Except ε α) (f : α → β) :
    (x.map f).toOption = x.toOption.map f := by
  cases x <;> rfl

theorem sameAnswer_iff {x y : Except Storage.Error ConfigSnapshot} :
    SameAnswer digest x y ↔ ∀ s, x = .ok s ↔ y = .ok s := by
  rw [← toOption_eq_iff, SameAnswer, toOption_map, toOption_map]
  constructor
  · exact fun h => h.1
  · intro h
    exact ⟨h, by rw [h]⟩

/-- Upstreams that their key tells apart give one snapshot. -/
theorem sameAnswer_of_told (htold : Readable db → UpstreamsTold db) (h : SameRows db db')
    (r : Reading db) (r' : Reading db') : SameAnswer digest r.snapshot r'.snapshot := by
  rw [sameAnswer_iff]
  intro s
  rw [Reading.snapshot_ok_iff, Reading.snapshot_ok_iff]
  constructor
  · rintro ⟨hread, settings, hget, rfl⟩
    exact ⟨h.readable hread, settings, h.settings ▸ hget, sections_eq h (htold hread) r r' _⟩
  · rintro ⟨hread', settings, hget, rfl⟩
    have hread : Readable db := h.symm.readable hread'
    exact ⟨hread, settings, h.settings ▸ hget, (sections_eq h (htold hread) r r' _).symm⟩

theorem UpstreamDto.ofRow_injective : Function.Injective UpstreamDto.ofRow := by
  rintro ⟨_, _, _, _, _⟩ ⟨_, _, _, _, _⟩ h
  cases h
  rfl

/-- Upstreams that their key does not tell apart have two snapshots. -/
theorem told_of_sameAnswer (hread : Readable db)
    (h : ∀ r r' : Reading db, SameAnswer digest r.snapshot r'.snapshot) : UpstreamsTold db := by
  intro u hu u' hu' horder haddress
  by_contra hne
  have hne' : u' ≠ u := fun heq => hne (heq ▸ rfl)
  -- The two rows are brought to the front of the table, in either order.
  have hperm : (u :: u' :: (db.upstreams.rows.erase u).erase u').Perm db.upstreams.rows :=
    ((List.perm_cons_erase hu).trans
      ((List.perm_cons_erase ((List.mem_erase_of_ne hne').mpr hu')).cons u)).symm
  have hperm' := (List.Perm.swap u u' _).trans hperm
  obtain ⟨settings, hget⟩ := hread.settings
  have hsnapshot : ∀ r : Reading db, r.snapshot = .ok (r.sections (.ofSettings settings)) :=
    fun r => r.snapshot_ok_iff.mpr ⟨hread, settings, hget, rfl⟩
  have hsame := (sameAnswer_iff.mp (h (readingOf hperm) (readingOf hperm')) _).mp (hsnapshot _)
  rw [hsnapshot] at hsame
  have hups := congrArg ConfigSnapshot.upstreams (Except.ok.inj hsame)
  rw [upstreams_readingOf, upstreams_readingOf] at hups
  have hkey : upstreamKey u = upstreamKey u' := by
    rw [upstreamKey, upstreamKey, horder, haddress]
  obtain ⟨l₀, l₁, hsorted, hsorted'⟩ := orderBy_swap hkey ((db.upstreams.rows.erase u).erase u')
  rw [hsorted, hsorted', List.map_append, List.map_append] at hups
  have hrow : UpstreamDto.ofRow u'.2 = UpstreamDto.ofRow u.2 :=
    (List.cons.inj (List.append_cancel_left hups)).1
  exact hne (UpstreamDto.ofRow_injective hrow.symm)

/-- **When the snapshot depends on the content only.**  Every reading of every
database with the same rows up to ids, timestamps and insertion order gives the same
snapshot and version exactly when no two upstreams with the same place and address
differ (or some row cannot be decoded, and there is no snapshot). -/
theorem snapshot_order_free_iff (digest : ConfigSnapshot → List UInt8) (db : Db) :
    (∀ db' : Db, SameRows db db' → ∀ (r : Reading db) (r' : Reading db'),
      SameAnswer digest r.snapshot r'.snapshot) ↔ (Readable db → UpstreamsTold db) := by
  constructor
  · intro h hread
    exact told_of_sameAnswer hread (h db (.refl db))
  · intro htold db' h r r'
    exact sameAnswer_of_told htold h r r'

end Main

/-- A database with an upstream over two transports, in one order or the other. -/
def dbWithUpstreams (first second : Transport) : Db :=
  { freshDb with
    upstreams :=
      ⟨[(1, ⟨"1.1.1.1", first.asStr, none, true, 0⟩), (2, ⟨"1.1.1.1", second.asStr, none, true, 0⟩)],
        3, by simp, by simp, by simp [upstreamSchema, Sql.Schema.keyOf], by cases first <;> cases second <;> decide⟩ }

/-- The same two upstreams, added in either order, give two snapshots. -/
theorem transport_order_shows :
    ¬ ∀ db db' : Db, SameRows db db' → ∀ (r : Reading db) (r' : Reading db'),
      r.snapshot.toOption = r'.snapshot.toOption := by
  intro hall
  have hrows : SameRows (dbWithUpstreams .udp .tcp) (dbWithUpstreams .tcp .udp) :=
    { SameRows.refl freshDb with upstreams := .swap _ _ _ }
  have hsame := hall _ _ hrows (.inIdOrder _) (.inIdOrder _)
  rw [Reading.snapshot_eq_build, Reading.snapshot_eq_build] at hsame
  exact absurd hsame (by decide)

end Sync

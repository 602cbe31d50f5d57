/-
The mirrored configuration (`sync/dto.rs` and `build_config_snapshot` of
`web/sync.rs`).

A snapshot holds each section in its wire form: without ids, with enumerations
and addresses as text, and in an order that depends on the content only.

* `SettingsDto.toSettings_ofSettings` — settings come back from their wire form;
* `orderBy_eq_of_perm` — a section in order depends only on which rows there are.
-/
import Sagittarius.Settings

open Codec

namespace Storage

/-! ### Order -/

variable {α κ : Type} [LinearOrder κ] {key : α → κ}

theorem orderBy_perm (key : α → κ) (l : List α) : (orderBy key l).Perm l :=
  List.perm_insertionSort _ l

theorem mem_orderBy {l : List α} {a : α} : a ∈ orderBy key l ↔ a ∈ l :=
  (orderBy_perm key l).mem_iff

theorem orderBy_pairwise (key : α → κ) (l : List α) :
    (orderBy key l).Pairwise (fun a b => key a ≤ key b) := by
  have htotal : Std.Total (fun a b : α => key a ≤ key b) := ⟨fun a b => le_total (key a) (key b)⟩
  have htrans : IsTrans α (fun a b : α => key a ≤ key b) := ⟨fun _ _ _ h h' => le_trans h h'⟩
  exact List.pairwise_insertionSort _ l

/-- What is in order stays as it is. -/
theorem orderBy_eq_self {l : List α} (h : l.Pairwise (fun a b => key a ≤ key b)) :
    orderBy key l = l :=
  List.Pairwise.insertionSort_eq h

/-- Two elements with one key stay in the order they come in. -/
theorem orderBy_swap {a b : α} (h : key a = key b) (l : List α) :
    ∃ l₀ l₁, orderBy key (a :: b :: l) = l₀ ++ a :: b :: l₁ ∧
      orderBy key (b :: a :: l) = l₀ ++ b :: a :: l₁ := by
  -- Inserted one after the other, both land at the end of the smaller elements.
  have hinsert : ∀ {a b : α}, key a = key b → orderBy key (a :: b :: l) =
      (orderBy key l).takeWhile (fun c => ¬ key b ≤ key c) ++
        a :: b :: (orderBy key l).dropWhile (fun c => ¬ key b ≤ key c) := by
    intro a b h
    have hall : ∀ c ∈ (orderBy key l).takeWhile (fun c => ¬ key b ≤ key c),
        decide (¬ key a ≤ key c) = true := by
      intro c hc
      have hlt := List.mem_takeWhile_imp hc
      rwa [← h] at hlt
    rw [orderBy, List.insertionSort_cons, List.insertionSort_cons,
      List.orderedInsert_eq_take_drop _ b, List.orderedInsert_eq_take_drop]
    rw [orderBy] at hall ⊢
    rw [List.takeWhile_append_of_pos hall, List.dropWhile_append_of_pos hall,
      List.takeWhile_cons_of_neg (by simp [h]), List.dropWhile_cons_of_neg (by simp [h]),
      List.append_nil]
  refine ⟨_, _, hinsert h, ?_⟩
  rw [← h]
  exact hinsert h.symm

/-- Where no two elements share a key the order leaves no choice. -/
theorem orderBy_eq_of_inj {l₁ l₂ : List α} (h : l₁.Perm l₂)
    (hinj : ∀ a ∈ l₁, ∀ b ∈ l₁, key a = key b → a = b) : orderBy key l₁ = orderBy key l₂ := by
  have hperm : (orderBy key l₁).Perm (orderBy key l₂) :=
    ((orderBy_perm key l₁).trans h).trans (orderBy_perm key l₂).symm
  refine hperm.eq_of_pairwise ?_ (orderBy_pairwise key l₁) (orderBy_pairwise key l₂)
  intro a b ha hb hab hba
  have ha' : a ∈ l₁ := mem_orderBy.mp ha
  have hb' : b ∈ l₁ := h.mem_iff.mpr (mem_orderBy.mp hb)
  exact hinj a ha' b hb' (le_antisymm hab hba)

/-- Under distinct keys the order leaves no choice. -/
theorem orderBy_eq_of_perm {l₁ l₂ : List α} (h : l₁.Perm l₂) (hkeys : (l₁.map key).Nodup) :
    orderBy key l₁ = orderBy key l₂ :=
  orderBy_eq_of_inj h (fun _ ha _ hb => List.inj_on_of_nodup_map hkeys ha hb)

end Storage

namespace Sync

open Storage

/-- `SettingsDto`. -/
structure SettingsDto where
  cacheMinTtl : UInt32
  cacheMaxTtl : UInt32
  cacheNegativeTtlCap : UInt32
  cacheCapacity : UInt64
  blockingMode : String
  customBlockIpv4 : Option String
  customBlockIpv6 : Option String
  blocklistRefreshInterval : UInt32
  uiTheme : String
  queryLogEnabled : Bool
  queryLogRetentionDays : UInt32
  upstreamSelectionStrategy : String
  upstreamParallelFanout : UInt32
  deriving DecidableEq, Repr

/-- `SettingsDto::from`. -/
def SettingsDto.ofSettings (s : Settings) : SettingsDto where
  cacheMinTtl := s.cacheMinTtl
  cacheMaxTtl := s.cacheMaxTtl
  cacheNegativeTtlCap := s.cacheNegativeTtlCap
  cacheCapacity := s.cacheCapacity
  blockingMode := s.blockingMode.asStr
  customBlockIpv4 := s.customBlockIpv4.map Ipv4Addr.display
  customBlockIpv6 := s.customBlockIpv6.map Ipv6Addr.display
  blocklistRefreshInterval := s.blocklistRefreshInterval
  uiTheme := s.uiTheme
  queryLogEnabled := s.queryLogEnabled
  queryLogRetentionDays := s.queryLogRetentionDays
  upstreamSelectionStrategy := s.upstreamSelectionStrategy.asStr
  upstreamParallelFanout := s.upstreamParallelFanout

/-- `Settings::try_from(&SettingsDto)`. -/
def SettingsDto.toSettings (d : SettingsDto) : Except Storage.Error Settings := do
  let blockingMode ← Token.fromStr d.blockingMode
  let customBlockIpv4 ← Settings.decodeIp Ipv4Addr.parse "custom_block_ipv4" d.customBlockIpv4
  let customBlockIpv6 ← Settings.decodeIp Ipv6Addr.parse "custom_block_ipv6" d.customBlockIpv6
  let upstreamSelectionStrategy ← Token.fromStr d.upstreamSelectionStrategy
  pure {
    cacheMinTtl := d.cacheMinTtl
    cacheMaxTtl := d.cacheMaxTtl
    cacheNegativeTtlCap := d.cacheNegativeTtlCap
    cacheCapacity := d.cacheCapacity
    blockingMode, customBlockIpv4, customBlockIpv6
    blocklistRefreshInterval := d.blocklistRefreshInterval
    uiTheme := d.uiTheme
    queryLogEnabled := d.queryLogEnabled
    queryLogRetentionDays := d.queryLogRetentionDays
    upstreamSelectionStrategy
    upstreamParallelFanout := d.upstreamParallelFanout }

theorem SettingsDto.toSettings_ofSettings (s : Settings) :
    (SettingsDto.ofSettings s).toSettings = .ok s := by
  have hmode : Token.fromStr s.blockingMode.asStr = .ok s.blockingMode :=
    Token.fromStr_ok_iff.mpr rfl
  have hstrategy : Token.fromStr s.upstreamSelectionStrategy.asStr
      = .ok s.upstreamSelectionStrategy := Token.fromStr_ok_iff.mpr rfl
  simp only [SettingsDto.toSettings, SettingsDto.ofSettings, hmode, hstrategy,
    Settings.decodeIp_display Ipv4Addr.parse_display,
    Settings.decodeIp_display Ipv6Addr.parse_display, bind, Except.bind]
  rfl

/-- `UpstreamDto`. -/
structure UpstreamDto where
  address : String
  transport : String
  tlsServerName : Option String
  enabled : Bool
  sortOrder : Int
  deriving DecidableEq, Repr

/-- `UpstreamDto::from`. -/
def UpstreamDto.ofUpstream (u : Upstream) : UpstreamDto :=
  ⟨u.address, u.transport.asStr, u.tlsServerName, u.enabled, u.sortOrder⟩

/-- `LocalRecordDto`. -/
structure LocalRecordDto where
  name : String
  recordType : String
  value : String
  ttl : UInt32
  deriving DecidableEq, Repr

/-- `LocalRecordDto::from`. -/
def LocalRecordDto.ofRecord (r : Storage.LocalRecord) : LocalRecordDto :=
  ⟨r.name, r.recordType.asStr, r.value, r.ttl⟩

/-- `ForwardZoneDto`. -/
structure ForwardZoneDto where
  zoneSuffix : String
  target : Option String
  enabled : Bool
  sortOrder : Int
  deriving DecidableEq, Repr

/-- `ForwardZoneDto::from`. -/
def ForwardZoneDto.ofZone (z : ForwardZone) : ForwardZoneDto :=
  ⟨z.zoneSuffix, z.target, z.enabled, z.sortOrder⟩

/-- `BlocklistSourceDto`. -/
structure BlocklistSourceDto where
  url : String
  format : String
  enabled : Bool
  deriving DecidableEq, Repr

/-- `BlocklistSourceDto::from`. -/
def BlocklistSourceDto.ofBlocklist (b : Blocklist) : BlocklistSourceDto :=
  ⟨b.url, b.format.asStr, b.enabled⟩

/-- `AdminUserDto`. -/
structure AdminUserDto where
  username : String
  passwordHash : String
  role : String
  deriving DecidableEq, Repr

/-- `AdminUserDto::from`. -/
def AdminUserDto.ofUser (u : AdminUser) : AdminUserDto := ⟨u.username, u.passwordHash, u.role.asStr⟩

/-- `ConfigSnapshot`. -/
structure ConfigSnapshot where
  settings : SettingsDto
  upstreams : List UpstreamDto
  blacklist : List String
  allowlist : List String
  localRecords : List LocalRecordDto
  forwardZones : List ForwardZoneDto
  blocklists : List BlocklistSourceDto
  adminUsers : List AdminUserDto
  deriving DecidableEq, Repr

/-- The mirrored tables of a database. -/
@[ext] structure Db where
  settings : SettingsRow
  upstreams : UpstreamTable
  blacklist : DomainTable
  allowlist : DomainTable
  localRecords : LocalRecordTable
  forwardZones : ForwardZoneTable
  adminUsers : AdminUserTable
  blocklists : BlocklistTable

/-! ### The sections of a snapshot -/

def settingsSection (row : SettingsRow) : Except Storage.Error SettingsDto :=
  (Settings.get row).map SettingsDto.ofSettings

def upstreamSection (t : UpstreamTable) : Except Storage.Error (List UpstreamDto) :=
  (Upstreams.list t).map (fun us =>
    orderBy (fun u => toLex (u.sortOrder, u.address)) (us.map UpstreamDto.ofUpstream))

def listSection (t : DomainTable) : List String := orderBy id (Lists.list t)

def localRecordSection (t : LocalRecordTable) : Except Storage.Error (List LocalRecordDto) :=
  (LocalRecords.list t).map (fun rs =>
    orderBy (fun r => toLex (r.name, r.recordType)) (rs.map LocalRecordDto.ofRecord))

def forwardZoneSection (t : ForwardZoneTable) : List ForwardZoneDto :=
  orderBy (fun z => toLex (z.sortOrder, z.zoneSuffix)) ((ForwardZones.list t).map ForwardZoneDto.ofZone)

def blocklistSection (t : BlocklistTable) : Except Storage.Error (List BlocklistSourceDto) :=
  (Blocklists.list t).map (fun bs => orderBy (·.url) (bs.map BlocklistSourceDto.ofBlocklist))

def adminUserSection (t : AdminUserTable) : Except Storage.Error (List AdminUserDto) :=
  (AdminUsers.listAll t).map (fun us => us.map AdminUserDto.ofUser)

/-- `build_config_snapshot`. -/
def buildConfigSnapshot (db : Db) : Except Storage.Error ConfigSnapshot := do
  let settings ← settingsSection db.settings
  let upstreams ← upstreamSection db.upstreams
  let localRecords ← localRecordSection db.localRecords
  let blocklists ← blocklistSection db.blocklists
  let adminUsers ← adminUserSection db.adminUsers
  pure {
    settings, upstreams
    blacklist := listSection db.blacklist
    allowlist := listSection db.allowlist
    localRecords
    forwardZones := forwardZoneSection db.forwardZones
    blocklists, adminUsers }

/-- A snapshot is built section by section. -/
theorem buildConfigSnapshot_ok_iff {db : Db} {s : ConfigSnapshot} :
    buildConfigSnapshot db = .ok s ↔
      settingsSection db.settings = .ok s.settings ∧
      upstreamSection db.upstreams = .ok s.upstreams ∧
      listSection db.blacklist = s.blacklist ∧
      listSection db.allowlist = s.allowlist ∧
      localRecordSection db.localRecords = .ok s.localRecords ∧
      forwardZoneSection db.forwardZones = s.forwardZones ∧
      blocklistSection db.blocklists = .ok s.blocklists ∧
      adminUserSection db.adminUsers = .ok s.adminUsers := by
  constructor
  · intro h
    obtain ⟨settings, hsettings, h⟩ := bind_ok_iff.mp h
    obtain ⟨upstreams, hupstreams, h⟩ := bind_ok_iff.mp h
    obtain ⟨records, hrecords, h⟩ := bind_ok_iff.mp h
    obtain ⟨blocklists, hblocklists, h⟩ := bind_ok_iff.mp h
    obtain ⟨users, husers, h⟩ := bind_ok_iff.mp h
    cases h
    exact ⟨hsettings, hupstreams, rfl, rfl, hrecords, rfl, hblocklists, husers⟩
  · rintro ⟨hsettings, hupstreams, hblack, hallow, hrecords, hzones, hblocklists, husers⟩
    refine bind_ok_iff.mpr ⟨_, hsettings, bind_ok_iff.mpr ⟨_, hupstreams, bind_ok_iff.mpr
      ⟨_, hrecords, bind_ok_iff.mpr ⟨_, hblocklists, bind_ok_iff.mpr ⟨_, husers, ?_⟩⟩⟩⟩⟩
    rw [hblack, hallow, hzones]
    rfl

end Sync

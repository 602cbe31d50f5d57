/-
The sections of a snapshot as functions of the rows.

* `upstreamSection_ok_iff`, `localRecordSection_ok_iff`, `blocklistSection_ok_iff`,
  `adminUserSection_ok_iff` — when a section can be read, and what it then is;
* `listSection_eq`, `forwardZoneSection_eq` — the sections that can always be read;
* `orderBy_eq_iff_perm` — under distinct keys a section in order is another one
  when both have the same elements.
-/
import Sagittarius.ConfigSnapshot

open Codec Storage Resolver

namespace Sync

/-! ### The wire form of a row -/

def UpstreamDto.ofRow (r : UpstreamRow) : UpstreamDto :=
  ⟨r.address, r.transport, r.tlsServerName, r.enabled, r.sortOrder⟩

def LocalRecordDto.ofRow (r : LocalRecordRow) : LocalRecordDto :=
  ⟨r.name, r.recordType, r.value, UInt32.ofNat r.ttl.toNat⟩

def ForwardZoneDto.ofRow (z : NewForwardZone) : ForwardZoneDto :=
  ⟨z.zoneSuffix, z.target, z.enabled, z.sortOrder⟩

def BlocklistSourceDto.ofRow (b : BlocklistRow) : BlocklistSourceDto := ⟨b.url, b.format, b.enabled⟩

def AdminUserDto.ofRow (u : AdminUserRow) : AdminUserDto := ⟨u.username, u.passwordHash, u.role⟩

/-- The order of the upstreams in a snapshot. -/
def UpstreamDto.sortKey (u : UpstreamDto) : Lex (Int × String) := toLex (u.sortOrder, u.address)

/-- The order of the local records in a snapshot. -/
def LocalRecordDto.sortKey (r : LocalRecordDto) : Lex (String × String) :=
  toLex (r.name, r.recordType)

/-- The order of the forward zones in a snapshot. -/
def ForwardZoneDto.sortKey (z : ForwardZoneDto) : Lex (Int × String) :=
  toLex (z.sortOrder, z.zoneSuffix)

theorem ofUpstream_of_decode (row : Nat × UpstreamRow) (u : Upstream)
    (h : Upstreams.decode row = .ok u) : UpstreamDto.ofUpstream u = UpstreamDto.ofRow row.2 := by
  rw [Upstreams.decode] at h
  split at h
  · cases h
  · rename_i transport htransport
    cases h
    rw [UpstreamDto.ofUpstream, UpstreamDto.ofRow, ← Token.fromStr_ok_iff.mp htransport]
    rfl

theorem ofRecord_of_decode (row : Nat × LocalRecordRow) (r : Storage.LocalRecord)
    (h : LocalRecords.decode row = .ok r) :
    LocalRecordDto.ofRecord r = LocalRecordDto.ofRow row.2 := by
  rw [LocalRecords.decode] at h
  split at h
  · cases h
  · rename_i recordType htype
    split_ifs at h
    cases h
    rw [LocalRecordDto.ofRecord, LocalRecordDto.ofRow, ← Token.fromStr_ok_iff.mp htype]
    rfl

theorem ofBlocklist_of_decode (row : Nat × BlocklistRow) (b : Blocklist)
    (h : Blocklists.decode row = .ok b) :
    BlocklistSourceDto.ofBlocklist b = BlocklistSourceDto.ofRow row.2 := by
  rw [Blocklists.decode] at h
  split at h
  · cases h
  · rename_i format hformat
    split_ifs at h
    cases h
    rw [BlocklistSourceDto.ofBlocklist, BlocklistSourceDto.ofRow, ← Token.fromStr_ok_iff.mp hformat]
    rfl

theorem ofUser_of_decode (row : Nat × AdminUserRow) (u : AdminUser)
    (h : AdminUsers.decode row = .ok u) : AdminUserDto.ofUser u = AdminUserDto.ofRow row.2 := by
  rw [AdminUsers.decode] at h
  split at h
  · cases h
  · rename_i role hrole
    cases h
    rw [AdminUserDto.ofUser, AdminUserDto.ofRow, ← Token.fromStr_ok_iff.mp hrole]
    rfl

/-! ### The sections as functions of the rows -/

/-- The wire form of the rows of a table, in id order. -/
def wireRows {ρ κ δ : Type} {S : Sql.Schema ρ κ} (ofRow : ρ → δ) (t : Sql.Table S) : List δ :=
  t.rows.map (fun r => ofRow r.2)

theorem map_orderBy {α β κ : Type} [LinearOrder κ] (key : β → κ) (f : α → β) (l : List α) :
    (orderBy (fun a => key (f a)) l).map f = orderBy key (l.map f) :=
  List.map_insertionSort _ _ f l (fun _ _ _ _ => Iff.rfl)

/-- A section of rows that are read one by one. -/
theorem map_mapM_ok_iff {ε α β γ δ : Type} {f : α → Except ε β} {g : β → γ} {w : α → γ}
    (hw : ∀ a b, f a = .ok b → g b = w a) {l : List α} (F : List γ → δ) {d : δ} :
    (l.mapM f).map (fun bs => F (bs.map g)) = .ok d ↔
      (∀ a ∈ l, ∃ b, f a = .ok b) ∧ d = F (l.map w) := by
  rw [← exists_mapM_ok_iff]
  cases hread : l.mapM f with
  | error e =>
    constructor
    · intro h
      cases h
    · rintro ⟨⟨bs, h⟩, _⟩
      cases h
  | ok bs =>
    rw [Except.map, map_of_mapM hw hread]
    constructor
    · intro h
      cases h
      exact ⟨⟨bs, rfl⟩, rfl⟩
    · rintro ⟨_, rfl⟩
      rfl

section Keyed

variable {ρ κ κ' δ : Type} {S : Sql.Schema ρ κ} {ofRow : ρ → δ} [LinearOrder κ']

/-- Rows with distinct keys have distinct wire forms. -/
theorem wireRows_keys_nodup {wkey : δ → κ} (hkey : ∀ r, wkey (ofRow r.2) = S.keyOf r)
    (t : Sql.Table S) : ((wireRows ofRow t).map wkey).Nodup := by
  have heq : (wireRows ofRow t).map wkey = t.rows.map S.keyOf := by
    rw [wireRows, List.map_map]
    exact List.map_congr_left (fun r _ => hkey r)
  exact heq ▸ t.keys_nodup

/-- Keys that tell the elements of a list apart still do in another key that
determines them. -/
theorem nodup_map_of_key {α : Type} {l : List δ} {wkey : δ → κ} {key : δ → α} (f : α → κ)
    (hf : ∀ d, f (key d) = wkey d) (h : (l.map wkey).Nodup) : (l.map key).Nodup := by
  refine List.Nodup.of_map f ?_
  have heq : (l.map key).map f = l.map wkey := by
    rw [List.map_map]
    exact List.map_congr_left (fun d _ => hf d)
  exact heq ▸ h

/-- A table holds exactly the wanted elements. -/
theorem wireRows_perm {t : Sql.Table S} {want : List δ} {wkey : δ → κ}
    (hkey : ∀ r, wkey (ofRow r.2) = S.keyOf r) (hnodup : (want.map wkey).Nodup)
    (hall : ∀ d ∈ want, ∃ r ∈ t.rows, ofRow r.2 = d) (hback : ∀ r ∈ t.rows, ofRow r.2 ∈ want) :
    (wireRows ofRow t).Perm want := by
  have hrows : (wireRows ofRow t).Nodup := .of_map wkey (wireRows_keys_nodup hkey t)
  rw [List.perm_ext_iff_of_nodup hrows (.of_map wkey hnodup)]
  intro d
  rw [wireRows, List.mem_map]
  constructor
  · rintro ⟨r, hr, rfl⟩
    exact hback r hr
  · exact hall d

/-- A sorted section is the one of another table when both hold the same wire
forms. -/
theorem orderBy_eq_iff_perm {key : δ → κ'} {l want : List δ}
    (hsorted : want.Pairwise (fun a b => key a ≤ key b)) (hkeys : (want.map key).Nodup) :
    orderBy key l = want ↔ l.Perm want := by
  constructor
  · intro h
    exact h ▸ (orderBy_perm key l).symm
  · intro h
    rw [← orderBy_eq_of_perm h.symm hkeys, orderBy_eq_self hsorted]

/-- A table that holds exactly the elements of a sorted section has that section. -/
theorem orderBy_wireRows {t : Sql.Table S} {want : List δ} {key : δ → κ'} {wkey : δ → κ}
    (hkey : ∀ r, wkey (ofRow r.2) = S.keyOf r) (hwkeys : (want.map wkey).Nodup)
    (hsorted : want.Pairwise (fun a b => key a ≤ key b)) (hkeys : (want.map key).Nodup)
    (hall : ∀ d ∈ want, ∃ r ∈ t.rows, ofRow r.2 = d) (hback : ∀ r ∈ t.rows, ofRow r.2 ∈ want) :
    orderBy key (wireRows ofRow t) = want :=
  (orderBy_eq_iff_perm hsorted hkeys).mpr (wireRows_perm hkey hwkeys hall hback)

end Keyed

theorem listSection_eq (t : DomainTable) : listSection t = orderBy id (wireRows id t) := by
  rw [listSection]
  exact orderBy_eq_self (orderBy_pairwise id _)

theorem upstreamSection_ok_iff {t : UpstreamTable} {w : List UpstreamDto} :
    upstreamSection t = .ok w ↔ (∀ r ∈ t.rows, ∃ u, Upstreams.decode r = .ok u) ∧
      w = orderBy UpstreamDto.sortKey (orderBy (·.sortOrder) (wireRows .ofRow t)) := by
  have hrows : (orderBy (·.2.sortOrder) t.rows).map (fun r => UpstreamDto.ofRow r.2) =
      orderBy (·.sortOrder) (wireRows .ofRow t) := map_orderBy UpstreamDto.sortOrder _ _
  have hsection := map_mapM_ok_iff ofUpstream_of_decode
    (l := orderBy (·.2.sortOrder) t.rows) (orderBy UpstreamDto.sortKey) (d := w)
  rw [hrows] at hsection
  simp only [mem_orderBy] at hsection
  exact hsection

theorem localRecordSection_ok_iff {t : LocalRecordTable} {w : List LocalRecordDto} :
    localRecordSection t = .ok w ↔ (∀ r ∈ t.rows, ∃ u, LocalRecords.decode r = .ok u) ∧
      w = orderBy LocalRecordDto.sortKey (wireRows .ofRow t) := by
  have hrows : (orderBy (fun r => toLex (r.2.name, r.2.recordType)) t.rows).map
      (fun r => LocalRecordDto.ofRow r.2) = orderBy LocalRecordDto.sortKey (wireRows .ofRow t) :=
    map_orderBy LocalRecordDto.sortKey _ _
  have hsection := map_mapM_ok_iff ofRecord_of_decode
    (l := orderBy (fun r => toLex (r.2.name, r.2.recordType)) t.rows)
    (orderBy LocalRecordDto.sortKey) (d := w)
  rw [hrows, orderBy_eq_self (orderBy_pairwise _ _)] at hsection
  simp only [mem_orderBy] at hsection
  exact hsection

theorem blocklistSection_ok_iff {t : BlocklistTable} {w : List BlocklistSourceDto} :
    blocklistSection t = .ok w ↔ (∀ r ∈ t.rows, ∃ b, Blocklists.decode r = .ok b) ∧
      w = orderBy (·.url) (wireRows .ofRow t) :=
  map_mapM_ok_iff ofBlocklist_of_decode (orderBy (·.url))

theorem adminUserSection_ok_iff {t : AdminUserTable} {w : List AdminUserDto} :
    adminUserSection t = .ok w ↔ (∀ r ∈ t.rows, ∃ u, AdminUsers.decode r = .ok u) ∧
      w = orderBy (·.username) (wireRows .ofRow t) := by
  have hrows : (orderBy (·.2.username) t.rows).map (fun r => AdminUserDto.ofRow r.2) =
      orderBy (·.username) (wireRows .ofRow t) := map_orderBy AdminUserDto.username _ _
  have hsection := map_mapM_ok_iff ofUser_of_decode
    (l := orderBy (·.2.username) t.rows) (fun us => us) (d := w)
  rw [hrows] at hsection
  simp only [mem_orderBy] at hsection
  exact hsection

theorem forwardZoneSection_eq (t : ForwardZoneTable) :
    forwardZoneSection t = orderBy ForwardZoneDto.sortKey (wireRows .ofRow t) := by
  have hzones : (ForwardZones.list t).map ForwardZoneDto.ofZone =
      orderBy (·.sortOrder) (wireRows .ofRow t) := by
    have hrows : (t.rows.map ForwardZones.decode).map ForwardZoneDto.ofZone = wireRows .ofRow t := by
      rw [List.map_map]
      rfl
    rw [← hrows]
    exact map_orderBy ForwardZoneDto.sortOrder _ _
  have hkeys : ((wireRows .ofRow t).map ForwardZoneDto.zoneSuffix).Nodup :=
    wireRows_keys_nodup (fun _ => rfl) t
  have hperm := orderBy_perm (·.sortOrder) (wireRows ForwardZoneDto.ofRow t)
  rw [forwardZoneSection, hzones]
  refine orderBy_eq_of_perm hperm (nodup_map_of_key (fun k => (ofLex k).2) (fun _ => rfl) ?_)
  exact (hperm.map ForwardZoneDto.zoneSuffix).nodup_iff.mpr hkeys

end Sync

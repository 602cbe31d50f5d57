/-
The sections that an apply replaces as a whole: the settings row, the upstreams
and the local records.

* `writeUpstreams_ok`, `writeLocalRecords_ok` — the rows after the transaction;
* `settings_mirrored`, `upstreams_mirrored` — the section is then the wanted one;
* `localRecords_mirrored_iff` — the records are when their names are in normal form;
* `settings_stable`, `upstreams_stable`, `localRecords_stable` — applied again, the
  rows stay.
-/
import Sagittarius.Text
import Sagittarius.SectionRows
import Sagittarius.ConfigApply

open Codec Storage Resolver

namespace Sync

/-! ### Settings -/

theorem settingsSection_ok_iff {row : SettingsRow} {w : SettingsDto} :
    settingsSection row = .ok w ↔ ∃ s, Settings.get row = .ok s ∧ w = .ofSettings s := by
  rw [settingsSection]
  cases hget : Settings.get row with
  | error e =>
    constructor
    · intro h
      cases h
    · rintro ⟨s, h, _⟩
      cases h
  | ok s =>
    constructor
    · intro h
      cases h
      exact ⟨s, rfl, rfl⟩
    · rintro ⟨s', h, rfl⟩
      cases h
      rfl

/-- A capacity that was read from a row fits into a row again. -/
theorem capacity_of_decode {c : SettingsColumns} {s : Settings} (h : Settings.decode c = .ok s) :
    s.cacheCapacity.toNat < 9223372036854775808 := by
  obtain ⟨_, _, h⟩ := bind_ok_iff.mp h
  obtain ⟨_, _, h⟩ := bind_ok_iff.mp h
  obtain ⟨_, _, h⟩ := bind_ok_iff.mp h
  obtain ⟨_, _, h⟩ := bind_ok_iff.mp h
  obtain ⟨_, _, h⟩ := bind_ok_iff.mp h
  obtain ⟨_, _, h⟩ := bind_ok_iff.mp h
  obtain ⟨capacity, hcapacity, h⟩ := bind_ok_iff.mp h
  obtain ⟨_, _, h⟩ := bind_ok_iff.mp h
  obtain ⟨_, _, h⟩ := bind_ok_iff.mp h
  obtain ⟨_, _, h⟩ := bind_ok_iff.mp h
  obtain ⟨_, _, h⟩ := bind_ok_iff.mp h
  cases h
  show capacity.toNat < 9223372036854775808
  rw [narrowU64] at hcapacity
  split_ifs at hcapacity with hnonneg
  cases hcapacity
  have hlt : c.cacheCapacity.toInt < 9223372036854775808 := Int64.toInt_lt _
  rw [UInt64.toNat_ofNat_of_lt' (show _ < 18446744073709551616 by omega)]
  omega

/-- The settings section writes the wanted settings. -/
theorem columns_of_applySettings {s : Settings} {row row' : SettingsRow}
    (h : applySettings (.ofSettings s) row = (row', none)) : row'.columns = Settings.encode s := by
  have hupdate := Script.attempt_ok_iff.mp h
  rw [SettingsDto.toSettings_ofSettings] at hupdate
  dsimp only at hupdate
  rw [Settings.update] at hupdate
  split_ifs at hupdate
  · cases hupdate
    rfl
  · cases hupdate

theorem settings_mirrored {row row' primary : SettingsRow} {want : SettingsDto}
    (hwant : settingsSection primary = .ok want) (h : applySettings want row = (row', none)) :
    settingsSection row' = .ok want := by
  obtain ⟨s, hs, rfl⟩ := settingsSection_ok_iff.mp hwant
  refine settingsSection_ok_iff.mpr ⟨s, ?_, rfl⟩
  rw [Settings.get, columns_of_applySettings h, Settings.decode_encode,
    if_pos (capacity_of_decode hs)]

/-- Applied again, the settings stay. -/
theorem settings_stable {row row' row'' primary : SettingsRow} {want : SettingsDto}
    {r : Option SyncError} (hwant : settingsSection primary = .ok want)
    (h : applySettings want row = (row', none)) (h' : applySettings want row' = (row'', r)) :
    row''.columns = row'.columns := by
  obtain ⟨s, _, rfl⟩ := settingsSection_ok_iff.mp hwant
  cases r with
  | none => rw [columns_of_applySettings h, columns_of_applySettings h']
  | some e => rw [(Script.attempt_error_iff.mp h').1]

/-- The rows of a table that is replaced in one transaction. -/
theorem content_of_replace {ρ κ : Type} [DecidableEq κ] {S : Sql.Schema ρ κ} {t t' : Sql.Table S}
    {rows : List ρ} (h : ofSql ((t.deleteWhere (fun _ => true)).insertAll rows) = .ok t') :
    t'.rows.map Prod.snd = rows := by
  rw [Sql.Table.content_of_insertAll (ofSql_ok h)]
  simp [Sql.Table.deleteWhere]

/-- The wire rows of a table whose rows are written from a list. -/
theorem wireRows_of_content {ρ κ δ α : Type} {S : Sql.Schema ρ κ} {ofRow : ρ → δ} {t : Sql.Table S}
    {encode : α → ρ} {news : List α} (h : t.rows.map Prod.snd = news.map encode) :
    wireRows ofRow t = news.map (fun a => ofRow (encode a)) := by
  have hrows : wireRows ofRow t = (t.rows.map Prod.snd).map ofRow := by
    rw [List.map_map]
    rfl
  rw [hrows, h, List.map_map]
  rfl

/-! ### Upstreams -/

theorem decode_encode_upstream (u : NewUpstream) (id : Nat) :
    ∃ v, Upstreams.decode (id, Upstreams.encode u) = .ok v := by
  have htoken : Token.fromStr u.transport.asStr = .ok u.transport := Token.fromStr_ok_iff.mpr rfl
  refine ⟨⟨id, u.address, u.transport, u.tlsServerName, u.enabled, u.sortOrder⟩, ?_⟩
  simp only [Upstreams.decode, Upstreams.encode, htoken]

theorem parseUpstreams_ok {want : List UpstreamDto} {rows : List NewUpstream}
    (h : parseUpstreams want = .ok rows) :
    rows.map (fun u => UpstreamDto.ofRow (Upstreams.encode u)) = want := by
  refine (map_of_mapM (w := id) ?_ h).trans (List.map_id want)
  intro dto u hu
  split at hu
  · cases hu
  · rename_i transport htransport
    cases hu
    have htext : transport.asStr = dto.transport := Token.fromStr_ok_iff.mp htransport
    show { dto with transport := transport.asStr } = dto
    rw [htext]

/-- The upstreams are replaced by the wanted ones, in their order. -/
theorem writeUpstreams_ok {want : List UpstreamDto} {t t' : UpstreamTable}
    (h : writeUpstreams want t = (t', none)) :
    wireRows .ofRow t' = want ∧ ∀ row ∈ t'.rows, ∃ u, Upstreams.decode row = .ok u := by
  have hwrite := Script.attempt_ok_iff.mp h
  split at hwrite
  · cases hwrite
  · rename_i rows hparse
    have hcontent := content_of_replace (mapError_ok hwrite)
    refine ⟨(wireRows_of_content hcontent).trans (parseUpstreams_ok hparse), ?_⟩
    intro row hrow
    have hrow' : row.2 ∈ rows.map Upstreams.encode := hcontent ▸ List.mem_map_of_mem hrow
    obtain ⟨u, _, hu⟩ := List.mem_map.mp hrow'
    exact (Prod.ext rfl hu : (row.1, Upstreams.encode u) = row) ▸ decode_encode_upstream u row.1

/-- What a section in one transaction leaves, whatever it returns. -/
theorem replace_spec {σ : Type} {f : σ → Except SyncError σ} {reload : σ → Option SyncError}
    {t t' : σ} {r : Option SyncError}
    (h : Script.andThen (Script.attempt f) (Script.check reload) t = (t', r)) :
    Script.attempt f t = (t', none) ∨ (t' = t ∧ r ≠ none) := by
  rcases Script.andThen_check h with hwrite | ⟨e, rfl, hwrite⟩
  · exact .inl hwrite
  · exact .inr ⟨(Script.attempt_error_iff.mp hwrite).1, by simp⟩

theorem upstreams_mirrored {t t' primary : UpstreamTable} {want : List UpstreamDto}
    (hwant : upstreamSection primary = .ok want) (h : applyUpstreams want t = (t', none)) :
    upstreamSection t' = .ok want := by
  rcases replace_spec h with h | ⟨_, hnone⟩
  · obtain ⟨hrows, hdecode⟩ := writeUpstreams_ok h
    refine upstreamSection_ok_iff.mpr ⟨hdecode, ?_⟩
    obtain ⟨_, hwant⟩ := upstreamSection_ok_iff.mp hwant
    -- The wanted upstreams are in order, so that neither sort moves one.
    have hsorted : want.Pairwise (fun a b => a.sortKey ≤ b.sortKey) :=
      hwant ▸ orderBy_pairwise UpstreamDto.sortKey _
    have hsorted' : want.Pairwise (fun a b => a.sortOrder ≤ b.sortOrder) :=
      hsorted.imp (fun hle => Prod.Lex.monotone_fst _ _ hle)
    rw [hrows, orderBy_eq_self hsorted', orderBy_eq_self hsorted]
  · exact absurd rfl hnone

/-- Applied again, the upstreams stay. -/
theorem upstreams_stable {t t' t'' : UpstreamTable} {want : List UpstreamDto}
    {r : Option SyncError} (h : applyUpstreams want t = (t', none))
    (h' : applyUpstreams want t' = (t'', r)) :
    wireRows UpstreamDto.ofRow t'' = wireRows UpstreamDto.ofRow t' := by
  rcases replace_spec h' with h' | ⟨rfl, _⟩
  · rcases replace_spec h with h | ⟨_, hnone⟩
    · rw [(writeUpstreams_ok h).1, (writeUpstreams_ok h').1]
    · exact absurd rfl hnone
  · rfl

/-! ### Local records -/

theorem stripDot_concat (cs : List Char) : Name.stripDot (cs ++ ['.']) = cs := by
  rw [Name.stripDot, if_pos (by simp), List.dropLast_concat]

theorem normalizeLocalName_idem (name : String) :
    normalizeLocalName (normalizeLocalName name) = normalizeLocalName name := by
  rw [normalizeLocalName, normalizeLocalName, String.toList_ofList, stripDot_concat, List.map_map]
  congr 3
  funext c
  exact Text.toLower_toLower c

/-- A wanted record under the normal form of its name. -/
def LocalRecordDto.normalized (dto : LocalRecordDto) : LocalRecordDto :=
  { dto with name := normalizeLocalName dto.name }

theorem decode_encode_record (r : NewLocalRecord) (id : Nat) :
    LocalRecords.decode (id, LocalRecords.encode r) =
      .ok ⟨id, normalizeLocalName r.name, r.recordType, r.value, r.ttl⟩ := by
  have htoken : Token.fromStr r.recordType.asStr = .ok r.recordType := Token.fromStr_ok_iff.mpr rfl
  have httl : (0 : Int) ≤ r.ttl.toNat ∧ (r.ttl.toNat : Int) < 4294967296 := by
    have hlt := r.ttl.toNat_lt
    omega
  simp only [LocalRecords.decode, LocalRecords.encode, htoken]
  refine (if_pos httl).trans ?_
  rw [Int.toNat_natCast, UInt32.ofNat_toNat]

theorem parseLocalRecords_ok {want : List LocalRecordDto} {rows : List NewLocalRecord}
    (h : parseLocalRecords want = .ok rows) :
    rows.map (fun r => LocalRecordDto.ofRow (LocalRecords.encode r)) =
      want.map LocalRecordDto.normalized := by
  refine map_of_mapM ?_ h
  intro dto r hr
  split at hr
  · cases hr
  · rename_i recordType htype
    cases hr
    have htext : recordType.asStr = dto.recordType := Token.fromStr_ok_iff.mp htype
    show ⟨normalizeLocalName dto.name, recordType.asStr, dto.value,
      UInt32.ofNat (dto.ttl.toNat : Int).toNat⟩ = dto.normalized
    rw [htext, Int.toNat_natCast, UInt32.ofNat_toNat]
    rfl

theorem content_of_writeLocalRecords {want : List LocalRecordDto} {t t' : LocalRecordTable}
    (h : writeLocalRecords want t = (t', none)) : ∃ rows, parseLocalRecords want = .ok rows ∧
      t'.rows.map Prod.snd = rows.map LocalRecords.encode := by
  have hwrite := Script.attempt_ok_iff.mp h
  split at hwrite
  · cases hwrite
  · rename_i rows hparse
    exact ⟨rows, hparse, content_of_replace (mapError_ok hwrite)⟩

/-- The records are replaced by the wanted ones, under their normal forms. -/
theorem writeLocalRecords_ok {want : List LocalRecordDto} {t t' : LocalRecordTable}
    (h : writeLocalRecords want t = (t', none)) :
    wireRows .ofRow t' = want.map LocalRecordDto.normalized ∧
      ∀ row ∈ t'.rows, ∃ v, LocalRecords.decode row = .ok v := by
  obtain ⟨rows, hparse, hcontent⟩ := content_of_writeLocalRecords h
  refine ⟨(wireRows_of_content hcontent).trans (parseLocalRecords_ok hparse), ?_⟩
  intro row hrow
  have hrow' : row.2 ∈ rows.map LocalRecords.encode := hcontent ▸ List.mem_map_of_mem hrow
  obtain ⟨r, _, hr⟩ := List.mem_map.mp hrow'
  exact ⟨_, (Prod.ext rfl hr : (row.1, LocalRecords.encode r) = row) ▸ decode_encode_record r row.1⟩

theorem localRecords_mirrored_iff {t t' primary : LocalRecordTable} {want : List LocalRecordDto}
    (hwant : localRecordSection primary = .ok want) (h : applyLocalRecords want t = (t', none)) :
    localRecordSection t' = .ok want ↔
      ∀ r ∈ primary.rows, normalizeLocalName r.2.name = r.2.name := by
  rcases replace_spec h with h | ⟨_, hnone⟩
  swap
  · exact absurd rfl hnone
  obtain ⟨hrows, hdecode⟩ := writeLocalRecords_ok h
  obtain ⟨_, hwant⟩ := localRecordSection_ok_iff.mp hwant
  have hsorted : want.Pairwise (fun a b => a.sortKey ≤ b.sortKey) := hwant ▸ orderBy_pairwise _ _
  have hmem : ∀ dto, dto ∈ want ↔ ∃ r ∈ primary.rows, LocalRecordDto.ofRow r.2 = dto := by
    intro dto
    rw [hwant, mem_orderBy, wireRows, List.mem_map]
  rw [localRecordSection_ok_iff, hrows]
  constructor
  · rintro ⟨_, hsection⟩ r hr
    -- A wanted name that is in the section is a normal form.
    have hdto := (hmem _).mpr ⟨r, hr, rfl⟩
    rw [hsection, mem_orderBy] at hdto
    obtain ⟨dto', _, hdto'⟩ := List.mem_map.mp hdto
    have hname : normalizeLocalName dto'.name = r.2.name := congrArg LocalRecordDto.name hdto'
    exact hname ▸ normalizeLocalName_idem dto'.name
  · intro hnormal
    have hsame : want.map LocalRecordDto.normalized = want := by
      refine (List.map_congr_left ?_).trans (List.map_id want)
      intro dto hdto
      obtain ⟨r, hr, rfl⟩ := (hmem dto).mp hdto
      show { LocalRecordDto.ofRow r.2 with name := normalizeLocalName r.2.name } = _
      rw [hnormal r hr]
      rfl
    exact ⟨hdecode, by rw [hsame, orderBy_eq_self hsorted]⟩

/-- Applied again, the records stay. -/
theorem localRecords_stable {t t' t'' : LocalRecordTable} {want : List LocalRecordDto}
    {r : Option SyncError} (h : applyLocalRecords want t = (t', none))
    (h' : applyLocalRecords want t' = (t'', r)) :
    wireRows LocalRecordDto.ofRow t'' = wireRows LocalRecordDto.ofRow t' := by
  rcases replace_spec h' with h' | ⟨rfl, _⟩
  · rcases replace_spec h with h | ⟨_, hnone⟩
    · rw [(writeLocalRecords_ok h).1, (writeLocalRecords_ok h').1]
    · exact absurd rfl hnone
  · rfl

end Sync

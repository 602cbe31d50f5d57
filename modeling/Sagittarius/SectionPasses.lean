/-
Which sections of a snapshot an apply gets through.

A section passes under a condition on the wire form and on the rows that are
stored; the reload behind the writes is part of it.

* `applySettings_none_iff`, `applyUpstreams_none_iff`, `applyList_none_iff`,
  `applyLocalRecords_none_iff`, `applyForwardZones_none_iff`,
  `applyAdminUsers_none_iff` — a section returns without an error exactly when it
  passes.
-/
import Sagittarius.ReplacedSections
import Sagittarius.ReconciledSections
import Sagittarius.ListSections

open Codec Storage Resolver

namespace Sync

/-- The outcome of an attempt. -/
theorem attempt_none_iff {σ : Type} {f : σ → Except SyncError σ} {s s' : σ} {r : Option SyncError}
    (h : Script.attempt f s = (s', r)) : r = none ↔ ∃ t, f s = .ok t := by
  cases r with
  | none => exact iff_of_true rfl ⟨s', Script.attempt_ok_iff.mp h⟩
  | some e =>
    refine iff_of_false (by simp) ?_
    rintro ⟨t, ht⟩
    rw [(Script.attempt_error_iff.mp h).2] at ht
    cases ht

theorem mapError_isOk_iff {ε ε' α : Type} {f : ε → ε'} {x : Except ε α} :
    (∃ a, x.mapError f = .ok a) ↔ ∃ a, x = .ok a := by
  cases x with
  | error e => simp [Except.mapError]
  | ok a => simp [Except.mapError]

theorem ofSql_isOk_iff {α : Type} {x : Except Sql.Violation α} :
    (∃ a, ofSql x = .ok a) ↔ ∃ a, x = .ok a := by
  cases x with
  | error v => simp [ofSql]
  | ok a => simp [ofSql]

/-! ### Settings -/

/-- The settings can be read from the wire form, and the row accepts them. -/
def SettingsPass (want : SettingsDto) : Prop :=
  ∃ s, want.toSettings = .ok s ∧ 1 ≤ s.upstreamParallelFanout

theorem applySettings_none_iff {want : SettingsDto} {row row' : SettingsRow}
    {r : Option SyncError} (h : applySettings want row = (row', r)) :
    r = none ↔ SettingsPass want := by
  rw [attempt_none_iff h, SettingsPass]
  cases want.toSettings with
  | error e => simp
  | ok s =>
    show (∃ t, (Settings.update s).mapError SyncError.storage = .ok t) ↔ _
    rw [mapError_isOk_iff, Settings.update]
    simp only [Except.ok.injEq, exists_eq_left', ← Settings.check_encode]
    split_ifs with hcheck
    · simp [hcheck]
    · simp [hcheck]

/-! ### Upstreams -/

/-- Every transport is a known word. -/
def UpstreamsPass (want : List UpstreamDto) : Prop :=
  ∀ dto ∈ want, ∃ transport : Transport, Token.fromStr dto.transport = .ok transport

theorem parseUpstreams_isOk_iff {want : List UpstreamDto} :
    (∃ rows, parseUpstreams want = .ok rows) ↔ UpstreamsPass want := by
  rw [parseUpstreams, exists_mapM_ok_iff]
  refine forall₂_congr (fun dto _ => ?_)
  cases (Token.fromStr dto.transport : Except Storage.Error Transport) with
  | error e => simp
  | ok transport => simp

theorem replaceUpstreams_isOk (t : UpstreamTable) (rows : List NewUpstream) :
    ∃ t', Upstreams.replaceAll t rows = .ok t' := by
  rw [Upstreams.replaceAll, ofSql_isOk_iff]
  refine Sql.Table.insertAll_isOk_of_id Function.injective_id (fun _ _ => rfl) ?_ _
  intro v hv
  obtain ⟨u, _, rfl⟩ := List.mem_map.mp hv
  show decide (u.transport.asStr ∈ ["udp", "tcp", "dot", "doh"]) = true
  cases u.transport <;> decide

theorem applyUpstreams_none_iff {want : List UpstreamDto} {t t' : UpstreamTable}
    {r : Option SyncError} (h : applyUpstreams want t = (t', r)) :
    r = none ↔ UpstreamsPass want := by
  have hwrites : (∃ t₁, writeUpstreams want t = (t₁, none)) ↔ UpstreamsPass want := by
    rw [← parseUpstreams_isOk_iff]
    simp only [writeUpstreams, Script.attempt_ok_iff]
    cases parseUpstreams want with
    | error e => simp
    | ok rows =>
      refine iff_of_true ?_ ⟨rows, rfl⟩
      exact mapError_isOk_iff.mpr (replaceUpstreams_isOk t rows)
  rw [← hwrites]
  constructor
  · rintro rfl
    obtain ⟨t₁, h₁, _⟩ := Script.andThen_ok_iff.mp h
    exact ⟨t₁, h₁⟩
  · rintro ⟨t₁, h₁⟩
    -- The pool reads rows that were written from known words.
    have hreload : errorOf SyncError.apply (Upstreams.listEnabled t₁) = none := by
      have hread : ∃ us, Upstreams.listEnabled t₁ = .ok us := by
        rw [Upstreams.listEnabled, exists_mapM_ok_iff]
        intro row hrow
        exact (writeUpstreams_ok h₁).2 row (List.mem_of_mem_filter (mem_orderBy.mp hrow))
      obtain ⟨us, hus⟩ := hread
      rw [hus]
      rfl
    rw [applyUpstreams, Script.andThen, h₁] at h
    have hr : errorOf SyncError.apply (Upstreams.listEnabled t₁) = r := congrArg Prod.snd h
    exact hr.symm.trans hreload

/-! ### The domain lists -/

/-- A domain that can be read as a name. -/
def ValidDomain (d : String) : Prop := ∃ n, Lists.normalize d = .ok n

/-- Every domain that is stored or wanted can be read as a name. -/
def ListPass (t : DomainTable) (want : List String) : Prop :=
  ∀ d, d ∈ domains t ∨ d ∈ want → ValidDomain d

theorem statement_isOk_iff {σ : Type} {f : σ → Except Storage.Error σ} {s : σ} :
    (∃ s', statement f s = (s', none)) ↔ ∃ s', f s = .ok s' := by
  simp only [statement, Script.attempt_ok_iff, mapError_isOk_iff]

theorem remove_isOk_iff (d : String) (t : DomainTable) :
    (∃ t', statement (Lists.remove · d) t = (t', none)) ↔ ValidDomain d := by
  rw [statement_isOk_iff, ValidDomain]
  show (∃ t', Lists.remove t d = .ok t') ↔ _
  rw [Lists.remove]
  cases Lists.normalize d with
  | error e => simp
  | ok n => simp

theorem add_isOk_iff (d : String) (t : DomainTable) :
    (∃ t', statement (Lists.add · d) t = (t', none)) ↔ ValidDomain d := by
  rw [statement_isOk_iff, ValidDomain]
  show (∃ t', Lists.add t d = .ok t') ↔ _
  rw [Lists.add]
  cases Lists.normalize d with
  | error e => simp
  | ok n =>
    refine iff_of_true ?_ ⟨n, rfl⟩
    dsimp only
    rw [Sql.Table.insert]
    split_ifs with hcheck hkey
    · exact ⟨_, rfl⟩
    · exact ⟨_, rfl⟩
    · exact absurd rfl hcheck

theorem writeList_isOk_iff {want : List String} {t : DomainTable} :
    (∃ t', writeList want t = (t', none)) ↔
      ∀ d, d ∈ domains t ∧ d ∉ want ∨ d ∈ want ∧ d ∉ domains t → ValidDomain d := by
  constructor
  · rintro ⟨t', h⟩
    exact (writeList_ok h).1
  · intro hvalid
    have hremove : ∀ d ∈ without (Lists.list t) want, ValidDomain d := by
      intro d hd
      obtain ⟨hin, hnot⟩ := mem_without.mp hd
      exact hvalid d (.inl ⟨mem_list.mp hin, hnot⟩)
    have hadd : ∀ d ∈ without want (Lists.list t), ValidDomain d := by
      intro d hd
      obtain ⟨hin, hnot⟩ := mem_without.mp hd
      exact hvalid d (.inr ⟨hin, fun h => hnot (mem_list.mpr h)⟩)
    obtain ⟨t₁, h₁⟩ := (Script.forEach_isOk_iff remove_isOk_iff (s := t)).mpr hremove
    obtain ⟨t', h'⟩ := (Script.forEach_isOk_iff add_isOk_iff (s := t₁)).mpr hadd
    refine ⟨t', ?_⟩
    rw [writeList_eq]
    exact Script.andThen_ok_iff.mpr ⟨t₁, h₁, h'⟩

theorem loadAll_none_iff {t : DomainTable} :
    errorOf SyncError.apply (Lists.loadAll t) = none ↔ ∀ d ∈ domains t, ValidDomain d := by
  have hread : (∃ ns, Lists.loadAll t = .ok ns) ↔ ∀ d ∈ domains t, ValidDomain d := by
    rw [Lists.loadAll, exists_mapM_ok_iff, domains, List.forall_mem_map]
    refine forall₂_congr (fun r _ => ?_)
    rw [ValidDomain, Lists.normalize]
    cases Name.fromStr r.2 with
    | error e => simp
    | ok n => simp
  rw [← hread]
  cases Lists.loadAll t with
  | error e => simp [errorOf]
  | ok ns => simp [errorOf]

theorem applyList_none_iff {want : List String} {t t' : DomainTable} {r : Option SyncError}
    (h : applyList want t = (t', r)) : r = none ↔ ListPass t want := by
  constructor
  · rintro rfl
    obtain ⟨t₁, hwrite, hreload⟩ := Script.andThen_ok_iff.mp h
    have hloaded := loadAll_none_iff.mp (congrArg Prod.snd hreload)
    obtain ⟨hvalid, hmem⟩ := writeList_ok hwrite
    -- A domain on both sides is read by the reload, unless it went as a normal form.
    have hboth : ∀ d ∈ domains t, d ∈ want → ValidDomain d := by
      intro d hd _
      by_cases hkept : d ∈ domains t₁
      · exact hloaded d hkept
      · have hgone : ¬ ∀ d' ∈ domains t, d' ∉ want → Lists.normalize d' ≠ .ok d :=
          fun hall => hkept ((hmem d).mpr (.inl ⟨hd, hall⟩))
        push Not at hgone
        obtain ⟨d', _, _, hd'⟩ := hgone
        exact ⟨d, normalize_idem hd'⟩
    intro d hd
    by_cases hin : d ∈ domains t
    · by_cases hwanted : d ∈ want
      · exact hboth d hin hwanted
      · exact hvalid d (.inl ⟨hin, hwanted⟩)
    · exact hvalid d (.inr ⟨hd.resolve_left hin, hin⟩)
  · intro hpass
    have hvalid : ∀ d, d ∈ domains t ∧ d ∉ want ∨ d ∈ want ∧ d ∉ domains t → ValidDomain d := by
      rintro d (⟨hd, _⟩ | ⟨hd, _⟩)
      · exact hpass d (.inl hd)
      · exact hpass d (.inr hd)
    obtain ⟨t₁, hwrite⟩ := writeList_isOk_iff.mpr hvalid
    have hloaded : errorOf SyncError.apply (Lists.loadAll t₁) = none := by
      refine loadAll_none_iff.mpr ?_
      intro x hx
      rcases ((writeList_ok hwrite).2 x).mp hx with ⟨hx, _⟩ | ⟨d, _, _, hdx⟩
      · exact hpass x (.inl hx)
      · exact ⟨x, normalize_idem hdx⟩
    rw [applyList, Script.andThen, hwrite] at h
    have hr : errorOf SyncError.apply (Lists.loadAll t₁) = r := congrArg Prod.snd h
    exact hr.symm.trans hloaded

/-! ### Admin users -/

/-- Every role is a known word. -/
def AdminUsersPass (want : List AdminUserDto) : Prop :=
  ∀ dto ∈ want, ∃ role : Role, Token.fromStr dto.role = .ok role

theorem upsert_isOk (t : AdminUserTable) (now : Int) (username passwordHash : String) (role : Role) :
    ∃ t', AdminUsers.upsert t now username passwordHash role = .ok t' := by
  rw [AdminUsers.upsert, Sql.Table.insert]
  split_ifs with hcheck hkey
  · exact ⟨_, rfl⟩
  · exact ⟨_, rfl⟩
  · exact absurd rfl hcheck

theorem putUser_isOk_iff (entry : AdminUserDto × Int) (t : AdminUserTable) :
    (∃ t', putUser entry t = (t', none)) ↔ ∃ role : Role, Token.fromStr entry.1.role = .ok role := by
  simp only [putUser, Script.attempt_ok_iff]
  cases (Token.fromStr entry.1.role : Except Storage.Error Role) with
  | error e => simp
  | ok role =>
    refine iff_of_true ?_ ⟨role, rfl⟩
    exact mapError_isOk_iff.mpr (upsert_isOk t _ _ _ role)

theorem applyAdminUsers_none_iff {clock : Nat → Int} {want : List AdminUserDto}
    {t t' : AdminUserTable} {r : Option SyncError}
    (h : applyAdminUsers clock want t = (t', r)) : r = none ↔ AdminUsersPass want := by
  have hputs : (∃ t₁, Script.forEach putUser (timed clock want) t = (t₁, none)) ↔
      AdminUsersPass want := by
    rw [Script.forEach_isOk_iff putUser_isOk_iff, AdminUsersPass]
    nth_rewrite 2 [← timed_fst clock want]
    rw [List.forall_mem_map]
  rw [← hputs]
  constructor
  · rintro rfl
    obtain ⟨t₁, h₁, _⟩ := Script.andThen_ok_iff.mp h
    exact ⟨t₁, h₁⟩
  · rintro ⟨t₁, h₁⟩
    obtain ⟨t₂, hdrops, _⟩ :=
      Sql.Table.forEach_drop (dropUser_drops want) (AdminUsers.listUsernames t₁) t₁
    rw [applyAdminUsers, Script.andThen, h₁] at h
    exact (Prod.mk.inj (h.symm.trans hdrops)).2

/-! ### Local records -/

/-- Whether a name can be added does not depend on what was added before. -/
theorem builderAdd_isOk_iff (b c : LocalRecordsBuilder) (name : String) (data : RecordData)
    (ttl : UInt32) : (∃ b', b.add name data ttl = .ok b') ↔ ∃ c', c.add name data ttl = .ok c' := by
  rw [LocalRecordsBuilder.add, LocalRecordsBuilder.add]
  split
  · split_ifs
    · simp
    · split <;> simp
  · simp
  · split <;> simp

/-- A row that makes a record: its value and its name are well formed. -/
def MakesRecord (row : Storage.LocalRecord) : Prop :=
  ∃ data, recordData row = .ok data ∧
    ∃ b, LocalRecordsBuilder.new.add (trimEndDots row.name) data row.ttl = .ok b

/-- The id of a row plays no part. -/
theorem MakesRecord.of_id {id : Nat} {name value : String} {recordType : RecordType} {ttl : UInt32}
    (h : MakesRecord ⟨id, name, recordType, value, ttl⟩) (id' : Nat) :
    MakesRecord ⟨id', name, recordType, value, ttl⟩ := by
  obtain ⟨data, hdata, hadd⟩ := h
  refine ⟨data, ?_, hadd⟩
  rw [← hdata, recordData, recordData]

theorem buildLocalRecords_isOk {rows : List Storage.LocalRecord} :
    (∃ l, buildLocalRecords rows = .ok l) ↔ ∀ row ∈ rows, MakesRecord row := by
  have hbuild : ∀ {x : Except LocalRecordError LocalRecordsBuilder},
      (∃ l, (x >>= fun b => pure b.build) = Except.ok l) ↔ ∃ b, x = .ok b := by
    intro x
    cases x with
    | error e => simp [bind, Except.bind]
    | ok b => simp [bind, Except.bind, pure, Except.pure]
  refine hbuild.trans (foldlM_isOk_iff ?_)
  intro b row
  rw [MakesRecord]
  cases recordData row with
  | error e => simp [bind, Except.bind]
  | ok data =>
    simp only [bind, Except.bind, Except.ok.injEq, exists_eq_left',
      ← builderAdd_isOk_iff b LocalRecordsBuilder.new]
    cases b.add (trimEndDots row.name) data row.ttl with
    | error e => simp [throw, throwThe, MonadExceptOf.throw]
    | ok b' => simp [pure, Except.pure]

/-- A wanted record with a known type, a value of that type and a name that can be
looked up. -/
def LocalRecordDto.Buildable (dto : LocalRecordDto) : Prop :=
  ∃ recordType, Token.fromStr dto.recordType = .ok recordType ∧ ∃ records,
    buildLocalRecords [⟨0, normalizeLocalName dto.name, recordType, dto.value, dto.ttl⟩] = .ok records

/-- Every wanted record can be built, and no two share a name and a type. -/
def LocalRecordsPass (want : List LocalRecordDto) : Prop :=
  (∀ dto ∈ want, dto.Buildable) ∧
    (want.map (fun dto => (normalizeLocalName dto.name, dto.recordType))).Nodup

theorem buildable_iff {dto : LocalRecordDto} : dto.Buildable ↔ ∃ recordType,
    Token.fromStr dto.recordType = .ok recordType ∧
      ∀ id, MakesRecord ⟨id, normalizeLocalName dto.name, recordType, dto.value, dto.ttl⟩ := by
  rw [LocalRecordDto.Buildable]
  refine exists_congr (fun recordType => and_congr_right (fun _ => ?_))
  rw [buildLocalRecords_isOk, List.forall_mem_singleton]
  exact ⟨fun h id => h.of_id id, fun h => h 0⟩

theorem parseLocalRecords_isOk_iff {want : List LocalRecordDto} :
    (∃ rows, parseLocalRecords want = .ok rows) ↔
      ∀ dto ∈ want, ∃ recordType : RecordType, Token.fromStr dto.recordType = .ok recordType := by
  rw [parseLocalRecords, exists_mapM_ok_iff]
  refine forall₂_congr (fun dto _ => ?_)
  cases (Token.fromStr dto.recordType : Except Storage.Error RecordType) with
  | error e => simp
  | ok recordType => simp

/-- The parsed rows, in terms of the wire form. -/
theorem mem_parseLocalRecords {want : List LocalRecordDto} {rows : List NewLocalRecord}
    (hparse : parseLocalRecords want = .ok rows) {r : NewLocalRecord} :
    r ∈ rows ↔ ∃ dto ∈ want, Token.fromStr dto.recordType = .ok r.recordType ∧
      r = ⟨dto.name, r.recordType, dto.value, dto.ttl⟩ := by
  rw [mem_mapM hparse]
  refine exists_congr (fun dto => and_congr_right (fun _ => ?_))
  cases (Token.fromStr dto.recordType : Except Storage.Error RecordType) with
  | error e => simp
  | ok recordType =>
    constructor
    · intro h
      cases h
      exact ⟨rfl, rfl⟩
    · rintro ⟨h, heq⟩
      cases h
      exact congrArg Except.ok heq.symm

theorem keys_of_parse {want : List LocalRecordDto} {rows : List NewLocalRecord}
    (hparse : parseLocalRecords want = .ok rows) :
    (rows.map LocalRecords.encode).map (fun r => (r.name, r.recordType)) =
      want.map (fun dto => (normalizeLocalName dto.name, dto.recordType)) := by
  rw [List.map_map]
  refine map_of_mapM ?_ hparse
  intro dto r hr
  split at hr
  · cases hr
  · rename_i recordType htype
    cases hr
    have htext : recordType.asStr = dto.recordType := Token.fromStr_ok_iff.mp htype
    exact Prod.ext rfl htext

theorem writeLocalRecords_isOk_iff {want : List LocalRecordDto} {t : LocalRecordTable} :
    (∃ t', writeLocalRecords want t = (t', none)) ↔
      (∀ dto ∈ want, ∃ recordType : RecordType, Token.fromStr dto.recordType = .ok recordType) ∧
        (want.map (fun dto => (normalizeLocalName dto.name, dto.recordType))).Nodup := by
  rw [← parseLocalRecords_isOk_iff]
  simp only [writeLocalRecords, Script.attempt_ok_iff]
  cases hparse : parseLocalRecords want with
  | error e => simp
  | ok rows =>
    dsimp only
    rw [mapError_isOk_iff, LocalRecords.replaceAll, ofSql_isOk_iff,
      Sql.Table.insertAll_isOk_iff (fun _ _ => rfl) (fun _ => rfl), ← keys_of_parse hparse]
    have hempty : ∀ v ∈ rows.map LocalRecords.encode,
        ∀ r ∈ (t.deleteWhere (fun _ => true)).rows, localRecordSchema.keyOf r ≠ (v.name, v.recordType) := by
      intro v _ r hr
      exact absurd (Sql.Table.mem_deleteWhere.mp hr).2 (by simp)
    constructor
    · rintro ⟨hnodup, _⟩
      exact ⟨⟨rows, rfl⟩, hnodup⟩
    · rintro ⟨_, hnodup⟩
      exact ⟨hnodup, hempty⟩

/-- The reload after the writes succeeds when every wanted record can be built. -/
theorem reloadLocalRecords_none_iff {want : List LocalRecordDto} {t t' : LocalRecordTable}
    (h : writeLocalRecords want t = (t', none)) :
    (reloadLocalRecords t').2 = none ↔ ∀ dto ∈ want, dto.Buildable := by
  obtain ⟨rows, hparse, hcontent⟩ := content_of_writeLocalRecords h
  have hread : ∃ listed, LocalRecords.list t' = .ok listed := by
    rw [LocalRecords.list, exists_mapM_ok_iff]
    intro row hrow
    exact (writeLocalRecords_ok h).2 row (mem_orderBy.mp hrow)
  obtain ⟨listed, hlisted⟩ := hread
  have hcheck : (reloadLocalRecords t').2 = none ↔ ∃ l, buildLocalRecords listed = .ok l := by
    rw [reloadLocalRecords, Script.check, hlisted]
    dsimp only
    cases buildLocalRecords listed with
    | error e => simp [errorOf]
    | ok l => simp [errorOf]
  rw [hcheck, buildLocalRecords_isOk]
  constructor
  · intro hall dto hdto
    obtain ⟨recordType, htype⟩ := parseLocalRecords_isOk_iff.mp ⟨rows, hparse⟩ dto hdto
    refine buildable_iff.mpr ⟨recordType, htype, ?_⟩
    have hnew : (⟨dto.name, recordType, dto.value, dto.ttl⟩ : NewLocalRecord) ∈ rows :=
      (mem_parseLocalRecords hparse).mpr ⟨dto, hdto, htype, rfl⟩
    have hstored : LocalRecords.encode ⟨dto.name, recordType, dto.value, dto.ttl⟩ ∈
        t'.rows.map Prod.snd := hcontent ▸ List.mem_map_of_mem hnew
    obtain ⟨row, hrow, hval⟩ := List.mem_map.mp hstored
    have hdecode : LocalRecords.decode row =
        .ok ⟨row.1, normalizeLocalName dto.name, recordType, dto.value, dto.ttl⟩ := by
      rw [← (Prod.ext rfl hval.symm : (row.1, LocalRecords.encode _) = row)]
      exact decode_encode_record _ row.1
    have hmakes := hall _ ((mem_mapM hlisted).mpr ⟨row, mem_orderBy.mpr hrow, hdecode⟩)
    exact fun id => hmakes.of_id id
  · intro hall rec hrec
    obtain ⟨row, hrow, hdecode⟩ := (mem_mapM hlisted).mp hrec
    have hstored : row.2 ∈ rows.map LocalRecords.encode :=
      hcontent ▸ List.mem_map_of_mem (mem_orderBy.mp hrow)
    obtain ⟨r, hr, hval⟩ := List.mem_map.mp hstored
    obtain ⟨dto, hdto, htype, hnew⟩ := (mem_parseLocalRecords hparse).mp hr
    rw [← (Prod.ext rfl hval : (row.1, LocalRecords.encode r) = row), decode_encode_record] at hdecode
    cases hdecode
    obtain ⟨recordType, htype', hmakes⟩ := buildable_iff.mp (hall dto hdto)
    rw [htype, Except.ok.injEq] at htype'
    rw [hnew, htype']
    exact hmakes row.1

theorem applyLocalRecords_none_iff {want : List LocalRecordDto} {t t' : LocalRecordTable}
    {r : Option SyncError} (h : applyLocalRecords want t = (t', r)) :
    r = none ↔ LocalRecordsPass want := by
  constructor
  · rintro rfl
    obtain ⟨t₁, hwrite, hreload⟩ := Script.andThen_ok_iff.mp h
    exact ⟨(reloadLocalRecords_none_iff hwrite).mp (congrArg Prod.snd hreload),
      (writeLocalRecords_isOk_iff.mp ⟨t₁, hwrite⟩).2⟩
  · rintro ⟨hbuildable, hnodup⟩
    have htokens : ∀ dto ∈ want,
        ∃ recordType : RecordType, Token.fromStr dto.recordType = .ok recordType := by
      intro dto hdto
      obtain ⟨recordType, htype, _⟩ := hbuildable dto hdto
      exact ⟨recordType, htype⟩
    obtain ⟨t₁, hwrite⟩ := writeLocalRecords_isOk_iff.mpr ⟨htokens, hnodup⟩
    rw [applyLocalRecords, Script.andThen, hwrite] at h
    have hr : (reloadLocalRecords t₁).2 = r := congrArg Prod.snd h
    exact hr.symm.trans ((reloadLocalRecords_none_iff hwrite).mpr hbuildable)

/-! ### Forward zones -/

/-- The wanted suffixes that are not stored. -/
def newSuffixes (t : ForwardZoneTable) (want : List ForwardZoneDto) : List String :=
  (want.map (·.zoneSuffix)).filter (fun suffix => suffix ∉ t.keys)

/-- No two wanted zones that are not stored yet share a suffix. -/
def ForwardZonesPass (t : ForwardZoneTable) (want : List ForwardZoneDto) : Prop :=
  (newSuffixes t want).Nodup

/-- A zone that is stored from the start is updated in place. -/
theorem putZone_stored_keys {t₀ : ForwardZoneTable} {dto : ForwardZoneDto}
    (hstored : dto.zoneSuffix ∈ t₀.keys) (t : ForwardZoneTable) :
    ∃ t', putZone (ForwardZones.list t₀) dto t = (t', none) ∧ t'.keys = t.keys := by
  cases hfind : t₀.findKey dto.zoneSuffix with
  | none => exact absurd hstored (Sql.Table.findKey_eq_none_iff_not_mem.mp hfind)
  | some r =>
    rw [putZone, find_zone, hfind, Option.map_some]
    dsimp only
    split_ifs
    · exact ⟨_, rfl, (Sql.Table.keys_modifyWhere _ _ _ _).trans (Sql.Table.keys_modifyWhere _ _ _ _)⟩
    · exact ⟨_, rfl, Sql.Table.keys_modifyWhere _ _ _ _⟩
    · exact ⟨_, rfl, Sql.Table.keys_modifyWhere _ _ _ _⟩
    · exact ⟨t, rfl, rfl⟩

/-- A zone that is not stored from the start is inserted, if its suffix is free. -/
theorem putZone_new {t₀ : ForwardZoneTable} {dto : ForwardZoneDto}
    (hnew : dto.zoneSuffix ∉ t₀.keys) (t : ForwardZoneTable) :
    putZone (ForwardZones.list t₀) dto t =
      statement (ForwardZones.insert · ⟨dto.zoneSuffix, dto.target, dto.enabled, dto.sortOrder⟩) t := by
  rw [putZone, find_zone, Sql.Table.findKey_eq_none_iff_not_mem.mpr hnew]
  rfl

theorem insertZone_isOk_iff (t : ForwardZoneTable) (zone : NewForwardZone) :
    (∃ t', statement (ForwardZones.insert · zone) t = (t', none)) ↔ zone.zoneSuffix ∉ t.keys := by
  rw [statement_isOk_iff]
  show (∃ t', ForwardZones.insert t zone = .ok t') ↔ _
  rw [ForwardZones.insert, ofSql_isOk_iff, Sql.Table.insert_isOk_iff, Sql.Table.keys, List.mem_map]
  simp [forwardZoneSchema]

theorem keys_of_insertZone {t t' : ForwardZoneTable} {zone : NewForwardZone}
    (h : statement (ForwardZones.insert · zone) t = (t', none)) :
    t'.keys = t.keys ++ [zone.zoneSuffix] :=
  Sql.Table.keys_of_insert (ofSql_ok (statement_ok h))

/-- The puts get through when the new suffixes are distinct and free. -/
theorem forEach_putZone_isOk_iff {t₀ : ForwardZoneTable} : ∀ {want : List ForwardZoneDto}
    {t : ForwardZoneTable},
    (∃ t', Script.forEach (putZone (ForwardZones.list t₀)) want t = (t', none)) ↔
      (newSuffixes t₀ want).Nodup ∧ ∀ k ∈ newSuffixes t₀ want, k ∉ t.keys := by
  intro want
  induction want with
  | nil => exact fun {t} => iff_of_true ⟨t, rfl⟩ ⟨.nil, by simp [newSuffixes]⟩
  | cons dto want ih =>
    intro t
    simp only [Script.forEach, Script.andThen_ok_iff]
    by_cases hstored : dto.zoneSuffix ∈ t₀.keys
    · have hsuffixes : newSuffixes t₀ (dto :: want) = newSuffixes t₀ want := by
        rw [newSuffixes, List.map_cons, List.filter_cons_of_neg (by simpa using hstored)]
        rfl
      obtain ⟨t₁, hput, hkeys⟩ := putZone_stored_keys hstored t
      rw [hsuffixes, ← hkeys, ← ih]
      constructor
      · rintro ⟨t', t₂, h₂, h'⟩
        rw [hput] at h₂
        cases h₂
        exact ⟨t', h'⟩
      · rintro ⟨t', h'⟩
        exact ⟨t', t₁, hput, h'⟩
    · have hsuffixes : newSuffixes t₀ (dto :: want) = dto.zoneSuffix :: newSuffixes t₀ want := by
        rw [newSuffixes, List.map_cons, List.filter_cons_of_pos (by simpa using hstored)]
        rfl
      rw [hsuffixes, putZone_new hstored, List.nodup_cons, List.forall_mem_cons]
      have hrest : ∀ {t₁ : ForwardZoneTable}, t₁.keys = t.keys ++ [dto.zoneSuffix] →
          ((∃ t', Script.forEach (putZone (ForwardZones.list t₀)) want t₁ = (t', none)) ↔
            (newSuffixes t₀ want).Nodup ∧ dto.zoneSuffix ∉ newSuffixes t₀ want ∧
              ∀ k ∈ newSuffixes t₀ want, k ∉ t.keys) := by
        intro t₁ hkeys
        rw [ih, hkeys]
        refine and_congr_right (fun _ => ?_)
        simp only [List.mem_append, List.mem_singleton, not_or]
        constructor
        · intro h
          exact ⟨fun hin => (h _ hin).2 rfl, fun k hk => (h k hk).1⟩
        · rintro ⟨hnot, h⟩ k hk
          exact ⟨h k hk, fun heq => hnot (heq ▸ hk)⟩
      constructor
      · rintro ⟨t', t₁, h₁, h'⟩
        obtain ⟨hnodup, hnot, hfree⟩ := (hrest (keys_of_insertZone h₁)).mp ⟨t', h'⟩
        exact ⟨⟨hnot, hnodup⟩, (insertZone_isOk_iff t _).mp ⟨t₁, h₁⟩, hfree⟩
      · rintro ⟨⟨hnot, hnodup⟩, hdto, hfree⟩
        obtain ⟨t₁, h₁⟩ := (insertZone_isOk_iff t
          ⟨dto.zoneSuffix, dto.target, dto.enabled, dto.sortOrder⟩).mpr hdto
        obtain ⟨t', h'⟩ := (hrest (keys_of_insertZone h₁)).mpr ⟨hnodup, hnot, hfree⟩
        exact ⟨t', t₁, h₁, h'⟩

theorem applyForwardZones_none_iff {want : List ForwardZoneDto} {t t' : ForwardZoneTable}
    {r : Option SyncError} (h : applyForwardZones want t = (t', r)) :
    r = none ↔ ForwardZonesPass t want := by
  have hputs : (∃ t₁, Script.forEach (putZone (ForwardZones.list t)) want t = (t₁, none)) ↔
      ForwardZonesPass t want := by
    rw [forEach_putZone_isOk_iff, ForwardZonesPass, and_iff_left]
    intro k hk
    simpa using (List.mem_filter.mp hk).2
  rw [← hputs]
  constructor
  · rintro rfl
    obtain ⟨t₁, h₁, _⟩ := Script.andThen_ok_iff.mp h
    exact ⟨t₁, h₁⟩
  · rintro ⟨t₁, h₁⟩
    obtain ⟨t₂, hdrops, _⟩ :=
      Sql.Table.forEach_drop (dropZone_drops want) (ForwardZones.list t) t₁
    rw [applyForwardZones, Script.andThen, h₁] at h
    exact (Prod.mk.inj (h.symm.trans hdrops)).2

end Sync

/-
Applying a snapshot to a secondary (`sync/apply.rs`).

The sections are applied in order, and the first error stops the rest.  Upstreams
and local records are parsed first and replaced in one transaction; the other
sections write row by row.  After its writes a section reloads its part of the
live state, which may fail too.  The live state itself is left out: a reload is
the check whether it can be built.

* `applyConfigSnapshot_ok_iff` — a snapshot is applied when every section is;
* `applyConfigSnapshot_error`, `applyConfigSnapshot_stops` — where an apply stops,
  and what it leaves.
-/
import Sagittarius.Script
import Sagittarius.ConfigSnapshot

open Codec Storage Resolver

namespace Sync

/-- `SyncError`. -/
inductive SyncError where
  | http
  | unexpectedStatus (status : Nat)
  | redirected (status : Nat)
  | decode (source : Storage.Error)
  | undecodable
  | storage (source : Storage.Error)
  | apply (source : Storage.Error)
  | applyRecords (source : LocalRecordError)
  deriving DecidableEq, Repr

/-- A statement of a repository. -/
def statement {σ : Type} (f : σ → Except Storage.Error σ) : Script SyncError σ :=
  Script.attempt (fun t => (f t).mapError .storage)

theorem mapError_ok {ε ε' α : Type} {f : ε → ε'} {x : Except ε α} {a : α}
    (h : x.mapError f = .ok a) : x = .ok a := by
  cases x with
  | error e => cases h
  | ok b =>
    cases h
    rfl

theorem statement_ok {σ : Type} {f : σ → Except Storage.Error σ} {s s' : σ}
    (h : statement f s = (s', none)) : f s = .ok s' :=
  mapError_ok (Script.attempt_ok_iff.mp h)

/-- The error of a check. -/
def errorOf {ε α : Type} (wrap : ε → SyncError) : Except ε α → Option SyncError
  | .ok _ => none
  | .error e => some (wrap e)

/-! ### Settings -/

/-- The settings section of `apply_config_snapshot`. -/
def applySettings (want : SettingsDto) : Script SyncError SettingsRow := Script.attempt (fun _ =>
  match want.toSettings with
  | .error e => .error (.decode e)
  | .ok settings => (Settings.update settings).mapError .storage)

/-! ### Upstreams -/

/-- The rows of the wire form, if every token parses. -/
def parseUpstreams (want : List UpstreamDto) : Except SyncError (List NewUpstream) :=
  want.mapM (fun dto =>
    match Token.fromStr dto.transport with
    | .error e => .error (.decode e)
    | .ok transport =>
      .ok ⟨dto.address, transport, dto.tlsServerName, dto.enabled, dto.sortOrder⟩)

/-- The writes of `apply_upstreams`. -/
def writeUpstreams (want : List UpstreamDto) : Script SyncError UpstreamTable :=
  Script.attempt (fun t =>
    match parseUpstreams want with
    | .error e => .error e
    | .ok rows => (Upstreams.replaceAll t rows).mapError .storage)

/-- `rebuild_upstream_pool` reads the enabled rows. -/
def rebuildUpstreamPool : Script SyncError UpstreamTable :=
  Script.check (fun t => errorOf .apply (Upstreams.listEnabled t))

/-- `apply_upstreams`. -/
def applyUpstreams (want : List UpstreamDto) : Script SyncError UpstreamTable :=
  Script.andThen (writeUpstreams want) rebuildUpstreamPool

/-! ### The domain lists -/

/-- Drop what is not wanted. -/
def dropDomain (want : List String) (d : String) : Script SyncError DomainTable :=
  if d ∈ want then Script.skip else statement (Lists.remove · d)

/-- Add what was not there. -/
def addDomain (have_ : List String) (d : String) : Script SyncError DomainTable :=
  if d ∈ have_ then Script.skip else statement (Lists.add · d)

/-- The writes of `apply_blacklist` and `apply_allowlist`. -/
def writeList (want : List String) : Script SyncError DomainTable := fun t =>
  let have_ := Lists.list t
  Script.andThen (Script.forEach (dropDomain want) have_)
    (Script.forEach (addDomain have_) want) t

/-- `reload_blacklist` and `reload_allowlist`. -/
def reloadList : Script SyncError DomainTable :=
  Script.check (fun t => errorOf .apply (Lists.loadAll t))

/-- `apply_blacklist` and `apply_allowlist`. -/
def applyList (want : List String) : Script SyncError DomainTable :=
  Script.andThen (writeList want) reloadList

/-! ### Local records -/

/-- The rows of the wire form, if every token parses. -/
def parseLocalRecords (want : List LocalRecordDto) : Except SyncError (List NewLocalRecord) :=
  want.mapM (fun dto =>
    match Token.fromStr dto.recordType with
    | .error e => .error (.decode e)
    | .ok recordType => .ok ⟨dto.name, recordType, dto.value, dto.ttl⟩)

/-- The writes of `apply_local_records`. -/
def writeLocalRecords (want : List LocalRecordDto) : Script SyncError LocalRecordTable :=
  Script.attempt (fun t =>
    match parseLocalRecords want with
    | .error e => .error e
    | .ok rows => (LocalRecords.replaceAll t rows).mapError .storage)

/-- `reload_local_records`. -/
def reloadLocalRecords : Script SyncError LocalRecordTable := Script.check (fun t =>
  match LocalRecords.list t with
  | .error e => some (.apply e)
  | .ok rows => errorOf .applyRecords (buildLocalRecords rows))

/-- `apply_local_records`. -/
def applyLocalRecords (want : List LocalRecordDto) : Script SyncError LocalRecordTable :=
  Script.andThen (writeLocalRecords want) reloadLocalRecords

/-! ### Forward zones -/

/-- A wanted zone: set what differs of the zone that was there, or insert it. -/
def putZone (have_ : List ForwardZone) (dto : ForwardZoneDto) : Script SyncError ForwardZoneTable :=
  match have_.find? (fun z => z.zoneSuffix = dto.zoneSuffix) with
  | some existing =>
    Script.andThen
      (if existing.target ≠ dto.target then
        Script.modify (ForwardZones.setTarget · existing.id dto.target) else Script.skip)
      (if existing.enabled ≠ dto.enabled then
        Script.modify (ForwardZones.setEnabled · existing.id dto.enabled) else Script.skip)
  | none =>
    statement (ForwardZones.insert · ⟨dto.zoneSuffix, dto.target, dto.enabled, dto.sortOrder⟩)

/-- A zone that was there and is not wanted goes. -/
def dropZone (want : List ForwardZoneDto) (z : ForwardZone) : Script SyncError ForwardZoneTable :=
  if z.zoneSuffix ∈ want.map (·.zoneSuffix) then Script.skip
  else Script.modify (ForwardZones.delete · z.id)

/-- The writes of `apply_forward_zones`; the rebuild behind them cannot fail. -/
def applyForwardZones (want : List ForwardZoneDto) : Script SyncError ForwardZoneTable := fun t =>
  let have_ := ForwardZones.list t
  Script.andThen (Script.forEach (putZone have_) want) (Script.forEach (dropZone want) have_) t

/-! ### Admin users -/

/-- A wanted user is upserted, at its time. -/
def putUser (entry : AdminUserDto × Int) : Script SyncError AdminUserTable :=
  Script.attempt (fun t =>
    match Token.fromStr entry.1.role with
    | .error e => .error (.decode e)
    | .ok role =>
      (AdminUsers.upsert t entry.2 entry.1.username entry.1.passwordHash role).mapError .storage)

/-- A user that is not wanted goes. -/
def dropUser (want : List AdminUserDto) (name : String) : Script SyncError AdminUserTable :=
  if name ∈ want.map (·.username) then Script.skip
  else Script.modify (AdminUsers.deleteByUsername · name)

/-- The wanted users with the times of their upserts. -/
def timed (clock : Nat → Int) (want : List AdminUserDto) : List (AdminUserDto × Int) :=
  want.zipIdx.map (fun p => (p.1, clock p.2))

/-- `apply_admin_users`, with the time of each upsert. -/
def applyAdminUsers (clock : Nat → Int) (want : List AdminUserDto) :
    Script SyncError AdminUserTable :=
  Script.andThen (Script.forEach putUser (timed clock want))
    (fun t => Script.forEach (dropUser want) (AdminUsers.listUsernames t) t)

/-! ### Blocklist sources -/

/-- `insert_blocklist`. -/
def insertBlocklist (dto : BlocklistSourceDto) (format : BlocklistFormat) :
    Script SyncError BlocklistTable :=
  statement (Blocklists.insert · ⟨dto.url, format, dto.enabled⟩)

/-- A wanted source: enable or disable the one that was there, insert it anew when
its format changed, or insert it. -/
def putBlocklist (have_ : List Blocklist) (dto : BlocklistSourceDto) :
    Script SyncError BlocklistTable :=
  match (Token.fromStr dto.format : Except Storage.Error BlocklistFormat) with
  | .error e => Script.check (fun _ => some (.decode e))
  | .ok format =>
    match have_.find? (fun b => b.url = dto.url) with
    | some existing =>
      if existing.format = format then
        if existing.enabled ≠ dto.enabled then
          Script.modify (Blocklists.setEnabled · existing.id dto.enabled)
        else Script.skip
      else
        Script.andThen (Script.modify (Blocklists.remove · existing.id)) (insertBlocklist dto format)
    | none => insertBlocklist dto format

/-- A source that was there and is not wanted goes. -/
def dropBlocklist (want : List BlocklistSourceDto) (b : Blocklist) :
    Script SyncError BlocklistTable :=
  if b.url ∈ want.map (·.url) then Script.skip else Script.modify (Blocklists.remove · b.id)

/-- `apply_blocklists`. -/
def applyBlocklists (want : List BlocklistSourceDto) : Script SyncError BlocklistTable := fun t =>
  match Blocklists.list t with
  | .error e => (t, some (.storage e))
  | .ok have_ =>
    Script.andThen (Script.forEach (putBlocklist have_) want)
      (Script.forEach (dropBlocklist want) have_) t

/-! ### The whole snapshot -/

/-- The sections of a snapshot. -/
inductive Section where
  | settings
  | upstreams
  | blacklist
  | allowlist
  | localRecords
  | forwardZones
  | adminUsers
  | blocklists
  deriving DecidableEq, Repr

namespace Section

/-- The order they are applied in: settings before the upstream pool reads them,
the blocklist sources last. -/
def order : List Section :=
  [.settings, .upstreams, .blacklist, .allowlist, .localRecords, .forwardZones, .adminUsers,
    .blocklists]

/-- One section of `apply_config_snapshot`, on its table of the database. -/
def apply (clock : Nat → Int) (snap : ConfigSnapshot) : Section → Script SyncError Db
  | .settings => Script.onPart (·.settings) (fun db t => { db with settings := t })
      (applySettings snap.settings)
  | .upstreams => Script.onPart (·.upstreams) (fun db t => { db with upstreams := t })
      (applyUpstreams snap.upstreams)
  | .blacklist => Script.onPart (·.blacklist) (fun db t => { db with blacklist := t })
      (applyList snap.blacklist)
  | .allowlist => Script.onPart (·.allowlist) (fun db t => { db with allowlist := t })
      (applyList snap.allowlist)
  | .localRecords => Script.onPart (·.localRecords) (fun db t => { db with localRecords := t })
      (applyLocalRecords snap.localRecords)
  | .forwardZones => Script.onPart (·.forwardZones) (fun db t => { db with forwardZones := t })
      (applyForwardZones snap.forwardZones)
  | .adminUsers => Script.onPart (·.adminUsers) (fun db t => { db with adminUsers := t })
      (applyAdminUsers clock snap.adminUsers)
  | .blocklists => Script.onPart (·.blocklists) (fun db t => { db with blocklists := t })
      (applyBlocklists snap.blocklists)

/-- The section takes its table of `db` to its table of `db'` and returns `r`. -/
def Returns (clock : Nat → Int) (snap : ConfigSnapshot) (db db' : Db)
    (r : Option SyncError) : Section → Prop
  | .settings => applySettings snap.settings db.settings = (db'.settings, r)
  | .upstreams => applyUpstreams snap.upstreams db.upstreams = (db'.upstreams, r)
  | .blacklist => applyList snap.blacklist db.blacklist = (db'.blacklist, r)
  | .allowlist => applyList snap.allowlist db.allowlist = (db'.allowlist, r)
  | .localRecords => applyLocalRecords snap.localRecords db.localRecords = (db'.localRecords, r)
  | .forwardZones => applyForwardZones snap.forwardZones db.forwardZones = (db'.forwardZones, r)
  | .adminUsers => applyAdminUsers clock snap.adminUsers db.adminUsers = (db'.adminUsers, r)
  | .blocklists => applyBlocklists snap.blocklists db.blocklists = (db'.blocklists, r)

/-- The table of a section is the same in both databases. -/
def Untouched (db db' : Db) : Section → Prop
  | .settings => db'.settings = db.settings
  | .upstreams => db'.upstreams = db.upstreams
  | .blacklist => db'.blacklist = db.blacklist
  | .allowlist => db'.allowlist = db.allowlist
  | .localRecords => db'.localRecords = db.localRecords
  | .forwardZones => db'.forwardZones = db.forwardZones
  | .adminUsers => db'.adminUsers = db.adminUsers
  | .blocklists => db'.blocklists = db.blocklists

end Section

/-- `apply_config_snapshot`. -/
def applyConfigSnapshot (clock : Nat → Int) (snap : ConfigSnapshot) : Script SyncError Db :=
  Script.forEach (Section.apply clock snap) Section.order

/-! ### Where an apply stops -/

variable {clock : Nat → Int} {snap : ConfigSnapshot} {db db' : Db}

namespace Section

theorem eq_of_untouched (h : ∀ k : Section, k.Untouched db db') : db' = db :=
  Db.ext (h .settings) (h .upstreams) (h .blacklist) (h .allowlist) (h .localRecords)
    (h .forwardZones) (h .adminUsers) (h .blocklists)

theorem Untouched.refl (db : Db) (k : Section) : k.Untouched db db := by
  cases k <;> rfl

theorem Untouched.symm {k : Section} (h : k.Untouched db db') : k.Untouched db' db := by
  cases k <;> exact Eq.symm h

theorem Untouched.trans {db₁ : Db} {k : Section} (h : k.Untouched db db₁)
    (h' : k.Untouched db₁ db') : k.Untouched db db' := by
  cases k <;> exact Eq.trans h' h

/-- What a section returns depends on its own table only. -/
theorem Returns.congr {db₁ db₂ : Db} {k : Section} {r : Option SyncError}
    (h : k.Returns clock snap db₁ db₂ r) (hfrom : k.Untouched db db₁) (hto : k.Untouched db₂ db') :
    k.Returns clock snap db db' r := by
  cases k <;> simp only [Returns, Untouched] at * <;> rw [← hfrom, hto] <;> exact h

theorem Returns.unique {db₁ : Db} {k : Section} {r r₁ : Option SyncError}
    (h₁ : k.Returns clock snap db db₁ r₁) (h : k.Returns clock snap db db' r) :
    k.Untouched db₁ db' ∧ r = r₁ := by
  cases k <;> exact Prod.mk.inj (h.symm.trans h₁)

/-- A section changes its own table only. -/
theorem apply_spec (clock : Nat → Int) (snap : ConfigSnapshot) (db : Db) (k : Section) :
    k.Returns clock snap db (k.apply clock snap db).1 (k.apply clock snap db).2 ∧
      ∀ j, j ≠ k → j.Untouched db (k.apply clock snap db).1 := by
  cases k
  all_goals
    refine ⟨rfl, ?_⟩
    intro j hj
    cases j <;> first | rfl | exact absurd rfl hj

/-- Sections that all succeed. -/
theorem forEach_apply_ok_iff : ∀ {ks : List Section} {db db' : Db}, ks.Nodup →
    (Script.forEach (apply clock snap) ks db = (db', none) ↔
      (∀ k ∈ ks, k.Returns clock snap db db' none) ∧ ∀ k, k ∉ ks → k.Untouched db db') := by
  intro ks
  induction ks with
  | nil =>
    intro db db' _
    constructor
    · intro h
      cases h
      exact ⟨by simp, fun k _ => .refl _ _⟩
    · rintro ⟨_, h⟩
      have heq : db' = db := eq_of_untouched (fun k => h k (by simp))
      exact heq ▸ rfl
  | cons k ks ih =>
    intro db db' hnodup
    obtain ⟨hk, hks⟩ := List.nodup_cons.mp hnodup
    obtain ⟨hreturns, hothers⟩ := apply_spec clock snap db k
    have hne : ∀ j ∈ ks, j ≠ k := fun j hj hjk => hk (hjk ▸ hj)
    rw [Script.forEach, Script.andThen_ok_iff]
    constructor
    · rintro ⟨db₁, h₁, h⟩
      rw [h₁] at hreturns hothers
      obtain ⟨hin, hout⟩ := (ih hks).mp h
      refine ⟨?_, ?_⟩
      · intro j hj
        rcases List.mem_cons.mp hj with rfl | hj
        · exact hreturns.congr (.refl _ _) (hout j hk)
        · exact (hin j hj).congr (hothers j (hne j hj)) (.refl _ _)
      · intro j hj
        rw [List.mem_cons, not_or] at hj
        exact (hothers j hj.1).trans (hout j hj.2)
    · rintro ⟨hin, hout⟩
      obtain ⟨hsame, hr⟩ := hreturns.unique (hin k List.mem_cons_self)
      refine ⟨(k.apply clock snap db).1, Prod.ext rfl hr.symm, (ih hks).mpr ⟨?_, ?_⟩⟩
      · intro j hj
        exact (hin j (List.mem_cons_of_mem _ hj)).congr (hothers j (hne j hj)).symm
          (.refl _ _)
      · intro j hj
        by_cases hjk : j = k
        · exact hjk ▸ hsame
        · exact (hothers j hjk).symm.trans (hout j (by simp [hjk, hj]))

theorem mem_order (k : Section) : k ∈ order := by
  cases k <;> decide

theorem order_nodup : order.Nodup := by decide

end Section

/-- A snapshot is applied when every section is. -/
theorem applyConfigSnapshot_ok_iff :
    applyConfigSnapshot clock snap db = (db', none) ↔
      ∀ k : Section, k.Returns clock snap db db' none := by
  rw [applyConfigSnapshot, Section.forEach_apply_ok_iff Section.order_nodup]
  constructor
  · intro h k
    exact h.1 k (Section.mem_order k)
  · intro h
    exact ⟨fun k _ => h k, fun k hk => absurd (Section.mem_order k) hk⟩

/-- An apply stops in a section: those before it are complete and those behind it
untouched. -/
theorem applyConfigSnapshot_error {e : SyncError}
    (h : applyConfigSnapshot clock snap db = (db', some e)) :
    ∃ pre k post, Section.order = pre ++ k :: post ∧
      (∀ j ∈ pre, j.Returns clock snap db db' none) ∧ k.Returns clock snap db db' (some e) ∧
      ∀ j ∈ post, j.Untouched db db' := by
  obtain ⟨pre, k, post, db₁, horder, hpre, hk⟩ := Script.forEach_error h
  have hnodup : (pre ++ k :: post).Nodup := horder ▸ Section.order_nodup
  rw [List.nodup_append'] at hnodup
  obtain ⟨hpre_nodup, hpost_nodup, hdisjoint⟩ := hnodup
  obtain ⟨hkpost, _⟩ := List.nodup_cons.mp hpost_nodup
  obtain ⟨hin, hout⟩ := (Section.forEach_apply_ok_iff hpre_nodup).mp hpre
  obtain ⟨hreturns, hothers⟩ := Section.apply_spec clock snap db₁ k
  rw [hk] at hreturns hothers
  have hnot : ∀ j ∈ k :: post, j ∉ pre := fun j hj hjpre => hdisjoint hjpre hj
  refine ⟨pre, k, post, horder, ?_, ?_, ?_⟩
  · intro j hj
    have hjk : j ≠ k := fun hjk => hnot k List.mem_cons_self (hjk ▸ hj)
    exact (hin j hj).congr (.refl _ _) (hothers j hjk)
  · exact hreturns.congr (hout k (hnot k List.mem_cons_self)) (.refl _ _)
  · intro j hj
    have hjk : j ≠ k := fun hjk => hkpost (hjk ▸ hj)
    exact (hout j (hnot j (List.mem_cons_of_mem _ hj))).trans (hothers j hjk)

/-- The section comes before the other one. -/
def Section.Before (j k : Section) : Prop := j ∈ Section.order.takeWhile (fun i => i ≠ k)

instance (j k : Section) : Decidable (j.Before k) := inferInstanceAs (Decidable (_ ∈ _))

/-- The same in terms of the order of the sections. -/
theorem applyConfigSnapshot_stops {e : SyncError}
    (h : applyConfigSnapshot clock snap db = (db', some e)) :
    ∃ k : Section, (∀ j : Section, j.Before k → j.Returns clock snap db db' none) ∧
      k.Returns clock snap db db' (some e) ∧
      ∀ j : Section, ¬ j.Before k → j ≠ k → j.Untouched db db' := by
  obtain ⟨pre, k, post, horder, hpre, hk, hpost⟩ := applyConfigSnapshot_error h
  have hkpre : ∀ j ∈ pre, decide (j ≠ k) = true := by
    intro j hj
    have hnodup : (pre ++ k :: post).Nodup := horder ▸ Section.order_nodup
    refine decide_eq_true (fun heq => ?_)
    exact (List.nodup_append'.mp hnodup).2.2 hj (heq ▸ List.mem_cons_self)
  have htake : Section.order.takeWhile (fun i => i ≠ k) = pre := by
    rw [horder, List.takeWhile_append_of_pos hkpre, List.takeWhile_cons_of_neg (by simp),
      List.append_nil]
  refine ⟨k, ?_, hk, ?_⟩
  · intro j hj
    rw [Section.Before, htake] at hj
    exact hpre j hj
  · intro j hnot hne
    rw [Section.Before, htake] at hnot
    have hj : j ∈ pre ++ k :: post := horder ▸ Section.mem_order j
    rcases List.mem_append.mp hj with hj | hj
    · exact absurd hj hnot
    · exact hpost j ((List.mem_cons.mp hj).resolve_left hne)

end Sync

/-
What an apply that fails leaves of a secondary (`sync/apply.rs`).

The sections before the one that failed are complete and those behind it are
untouched; the failed one is whole under a condition of its own.

* `no_torn_section_iff` — when every table holds its old rows or those of a
  complete apply.
-/
import Sagittarius.TornSections
import Sagittarius.ConfigMirror

open Codec Storage Resolver

namespace Sync

variable {clock : Nat → Int} {snap : ConfigSnapshot} {db db' : Db}

namespace Section

/-- The table of the section holds the same rows in both databases. -/
def Kept (db db' : Db) : Section → Prop
  | .settings => db'.settings.columns = db.settings.columns
  | .upstreams => db'.upstreams.rows = db.upstreams.rows
  | .blacklist => db'.blacklist.rows = db.blacklist.rows
  | .allowlist => db'.allowlist.rows = db.allowlist.rows
  | .localRecords => db'.localRecords.rows = db.localRecords.rows
  | .forwardZones => db'.forwardZones.rows = db.forwardZones.rows
  | .adminUsers => db'.adminUsers.rows = db.adminUsers.rows
  | .blocklists => db'.blocklists.rows = db.blocklists.rows

/-- The table of the section holds the rows that its complete writes leave. -/
def Complete (clock : Nat → Int) (snap : ConfigSnapshot) (db db' : Db) : Section → Prop
  | .settings => ∃ t, applySettings snap.settings db.settings = (t, none) ∧
      db'.settings.columns = t.columns
  | .upstreams => ∃ t, writeUpstreams snap.upstreams db.upstreams = (t, none) ∧
      db'.upstreams.rows = t.rows
  | .blacklist => ∃ t, writeList snap.blacklist db.blacklist = (t, none) ∧
      db'.blacklist.rows = t.rows
  | .allowlist => ∃ t, writeList snap.allowlist db.allowlist = (t, none) ∧
      db'.allowlist.rows = t.rows
  | .localRecords => ∃ t, writeLocalRecords snap.localRecords db.localRecords = (t, none) ∧
      db'.localRecords.rows = t.rows
  | .forwardZones => ∃ t, applyForwardZones snap.forwardZones db.forwardZones = (t, none) ∧
      db'.forwardZones.rows = t.rows
  | .adminUsers => ∃ t, applyAdminUsers clock snap.adminUsers db.adminUsers = (t, none) ∧
      db'.adminUsers.rows = t.rows
  | .blocklists => ∃ t, applyBlocklists snap.blocklists db.blocklists = (t, none) ∧
      db'.blocklists.rows = t.rows

/-- The section is not torn. -/
def NotTorn (clock : Nat → Int) (snap : ConfigSnapshot) (db db' : Db) (k : Section) : Prop :=
  k.Kept db db' ∨ k.Complete clock snap db db'

theorem kept_of_untouched {k : Section} (h : k.Untouched db db') : k.Kept db db' := by
  cases k <;> simp only [Untouched, Kept] at * <;> rw [h]

theorem complete_of_returns {k : Section} (h : k.Returns clock snap db db' none) :
    k.Complete clock snap db db' := by
  cases k with
  | settings => exact ⟨_, h, rfl⟩
  | upstreams =>
    obtain ⟨t, hwrite, hreload⟩ := Script.andThen_ok_iff.mp h
    exact ⟨t, hwrite, congrArg (Sql.Table.rows ∘ Prod.fst) hreload.symm⟩
  | blacklist => exact ⟨_, writes_of_applyList h, rfl⟩
  | allowlist => exact ⟨_, writes_of_applyList h, rfl⟩
  | localRecords =>
    obtain ⟨t, hwrite, hreload⟩ := Script.andThen_ok_iff.mp h
    exact ⟨t, hwrite, congrArg (Sql.Table.rows ∘ Prod.fst) hreload.symm⟩
  | forwardZones => exact ⟨_, h, rfl⟩
  | adminUsers => exact ⟨_, h, rfl⟩
  | blocklists => exact ⟨_, h, rfl⟩

end Section

/-! ### Sections that are reached -/

def ReachesBlacklist (snap : ConfigSnapshot) : Prop :=
  SettingsPass snap.settings ∧ UpstreamsPass snap.upstreams

def ReachesAllowlist (snap : ConfigSnapshot) (db : Db) : Prop :=
  ReachesBlacklist snap ∧ ListPass db.blacklist snap.blacklist

def ReachesLocalRecords (snap : ConfigSnapshot) (db : Db) : Prop :=
  ReachesAllowlist snap db ∧ ListPass db.allowlist snap.allowlist

def ReachesForwardZones (snap : ConfigSnapshot) (db : Db) : Prop :=
  ReachesLocalRecords snap db ∧ LocalRecordsPass snap.localRecords

def ReachesAdminUsers (snap : ConfigSnapshot) (db : Db) : Prop :=
  ReachesForwardZones snap db ∧ ForwardZonesPass db.forwardZones snap.forwardZones

def ReachesBlocklists (snap : ConfigSnapshot) (db : Db) : Prop :=
  ReachesAdminUsers snap db ∧ AdminUsersPass snap.adminUsers

/-- Each section that is written row by row is whole, if the apply comes to it. -/
@[mk_iff] structure Untorn (clock : Nat → Int) (snap : ConfigSnapshot) (db : Db) : Prop where
  blacklist : ReachesBlacklist snap → ListWhole db.blacklist snap.blacklist
  allowlist : ReachesAllowlist snap db → ListWhole db.allowlist snap.allowlist
  forwardZones : ReachesForwardZones snap db → ForwardZonesPass db.forwardZones snap.forwardZones
  adminUsers : ReachesAdminUsers snap db → AdminUsersWhole clock db.adminUsers snap.adminUsers
  blocklists : ReachesBlocklists snap db → BlocklistsWhole db.blocklists snap.blocklists

theorem ListPass.whole {t : DomainTable} {want : List String} (h : ListPass t want) :
    ListWhole t want := by
  refine .inl (fun d hd => h d ?_)
  rcases List.mem_append.mp hd with hd | hd
  · exact .inl (mem_list.mp (mem_without.mp hd).1)
  · exact .inr (mem_without.mp hd).1

theorem AdminUsersPass.whole {t : AdminUserTable} {want : List AdminUserDto}
    (h : AdminUsersPass want) : AdminUsersWhole clock t want := .inl h

/-- A section that has no complete run is not torn when it kept its rows. -/
theorem or_iff_of_error {σ τ : Type} {m : Script SyncError σ} {s s' : σ} {e : SyncError} {p : Prop}
    {f : σ → τ} {x : τ} (h : m s = (s', some e)) :
    (p ∨ ∃ t, m s = (t, none) ∧ x = f t) ↔ p := by
  refine or_iff_left ?_
  rintro ⟨t, ht, _⟩
  rw [h] at ht
  cases ht

/-- A replaced section is never torn. -/
theorem notTorn_of_replace {σ τ : Type} {f : σ → Except SyncError σ} {reload : σ → Option SyncError}
    {t t' : σ} {r : Option SyncError} (rows : σ → τ)
    (h : Script.andThen (Script.attempt f) (Script.check reload) t = (t', r)) :
    rows t' = rows t ∨ ∃ t₁, Script.attempt f t = (t₁, none) ∧ rows t' = rows t₁ := by
  rcases replace_spec h with hwrite | ⟨rfl, _⟩
  · exact .inr ⟨t', hwrite, rfl⟩
  · exact .inl rfl

/-- The section where an apply stopped is not torn exactly under the condition: the
sections before it passed, and those behind it are not reached. -/
theorem stopped_notTorn_iff {k : Section} {e : SyncError}
    (hbefore : ∀ j : Section, j.Before k → j.Returns clock snap db db' none)
    (hk : k.Returns clock snap db db' (some e)) :
    k.NotTorn clock snap db db' ↔ Untorn clock snap db := by
  have hsettings : Section.Before .settings k → SettingsPass snap.settings :=
    fun h => (applySettings_none_iff (hbefore _ h)).mp rfl
  have hupstreams : Section.Before .upstreams k → UpstreamsPass snap.upstreams :=
    fun h => (applyUpstreams_none_iff (hbefore _ h)).mp rfl
  have hblack : Section.Before .blacklist k → ListPass db.blacklist snap.blacklist :=
    fun h => (applyList_none_iff (hbefore _ h)).mp rfl
  have hallow : Section.Before .allowlist k → ListPass db.allowlist snap.allowlist :=
    fun h => (applyList_none_iff (hbefore _ h)).mp rfl
  have hrecords : Section.Before .localRecords k → LocalRecordsPass snap.localRecords :=
    fun h => (applyLocalRecords_none_iff (hbefore _ h)).mp rfl
  have hzones : Section.Before .forwardZones k → ForwardZonesPass db.forwardZones snap.forwardZones :=
    fun h => (applyForwardZones_none_iff (hbefore _ h)).mp rfl
  have husers : Section.Before .adminUsers k → AdminUsersPass snap.adminUsers :=
    fun h => (applyAdminUsers_none_iff (hbefore _ h)).mp rfl
  rw [untorn_iff]
  simp only [ReachesBlocklists, ReachesAdminUsers, ReachesForwardZones, ReachesLocalRecords,
    ReachesAllowlist, ReachesBlacklist]
  cases k with
  | settings =>
    have hfails : ¬ SettingsPass snap.settings := by
      rw [← applySettings_none_iff hk]
      simp
    simp only [hfails, false_and, false_imp_iff, and_self, iff_true]
    exact .inl (congrArg SettingsRow.columns (Script.attempt_error_iff.mp hk).1)
  | upstreams =>
    have hfails : ¬ UpstreamsPass snap.upstreams := by
      rw [← applyUpstreams_none_iff hk]
      simp
    simp only [hfails, and_false, false_and, false_imp_iff, and_self, iff_true]
    exact notTorn_of_replace Sql.Table.rows hk
  | blacklist =>
    have hfails : ¬ ListPass db.blacklist snap.blacklist := by
      rw [← applyList_none_iff hk]
      simp
    simp only [hsettings (by decide), hupstreams (by decide), hfails, and_self, and_false, false_and,
      false_imp_iff, true_imp_iff, and_true]
    exact applyList_error hk
  | allowlist =>
    have hfails : ¬ ListPass db.allowlist snap.allowlist := by
      rw [← applyList_none_iff hk]
      simp
    simp only [hsettings (by decide), hupstreams (by decide), hblack (by decide),
      (hblack (by decide)).whole, hfails, and_self, and_false, false_and, false_imp_iff, true_imp_iff,
      and_true, true_and]
    exact applyList_error hk
  | localRecords =>
    have hfails : ¬ LocalRecordsPass snap.localRecords := by
      rw [← applyLocalRecords_none_iff hk]
      simp
    simp only [(hblack (by decide)).whole, (hallow (by decide)).whole, hfails, and_false, false_and,
      false_imp_iff, imp_true_iff, and_self, iff_true]
    exact notTorn_of_replace Sql.Table.rows hk
  | forwardZones =>
    have hfails : ¬ ForwardZonesPass db.forwardZones snap.forwardZones := by
      rw [← applyForwardZones_none_iff hk]
      simp
    simp only [hsettings (by decide), hupstreams (by decide), hblack (by decide), hallow (by decide),
      hrecords (by decide), hfails, and_self, and_false, false_and, true_imp_iff, iff_false]
    refine (not_congr (or_iff_of_error hk)).mpr (applyForwardZones_error hk)
  | adminUsers =>
    have hfails : ¬ AdminUsersPass snap.adminUsers := by
      rw [← applyAdminUsers_none_iff hk]
      simp
    simp only [hsettings (by decide), hupstreams (by decide), hblack (by decide), hallow (by decide),
      hrecords (by decide), hzones (by decide), (hblack (by decide)).whole,
      (hallow (by decide)).whole, hfails, and_self, and_false, false_imp_iff, true_imp_iff, and_true,
      true_and]
    exact (or_iff_of_error hk).trans (applyAdminUsers_error hk)
  | blocklists =>
    simp only [hsettings (by decide), hupstreams (by decide), hblack (by decide), hallow (by decide),
      hrecords (by decide), hzones (by decide), husers (by decide), (hblack (by decide)).whole,
      (hallow (by decide)).whole, (husers (by decide)).whole, and_self, true_imp_iff, true_and]
    exact (or_iff_of_error hk).trans (applyBlocklists_error hk)

/-- **No torn section.**  After an apply that failed every table holds its old rows,
or those of a complete apply of its section, exactly when each section that is
written row by row and that the apply comes to is whole: nothing is written before
the element it fails at. -/
theorem no_torn_section_iff {e : SyncError} (h : applyConfigSnapshot clock snap db = (db', some e)) :
    (∀ k : Section, k.Kept db db' ∨ k.Complete clock snap db db') ↔ Untorn clock snap db := by
  obtain ⟨k, hbefore, hk, hafter⟩ := applyConfigSnapshot_stops h
  rw [← stopped_notTorn_iff hbefore hk]
  constructor
  · intro hall
    exact hall k
  · intro hk' j
    by_cases hj : j = k
    · exact hj ▸ hk'
    · by_cases hbef : j.Before k
      · exact .inr (Section.complete_of_returns (hbefore j hbef))
      · exact .inl (Section.kept_of_untouched (hafter j hbef hj))

/-- A snapshot with a blacklist of its own. -/
def snapshotWithBlacklist (want : List String) : ConfigSnapshot :=
  { zoneSnapshot 1 with forwardZones := [], blacklist := want }

/-- A blacklist that fails at its first domain writes nothing. -/
theorem no_torn_section_first_domain :
    ∃ db' e, applyConfigSnapshot (fun _ => 0) (snapshotWithBlacklist ["b c"]) freshDb = (db', some e) ∧
      ∀ k : Section, k.Kept freshDb db' ∨
        k.Complete (fun _ => 0) (snapshotWithBlacklist ["b c"]) freshDb db' := by
  have hfails : (applyConfigSnapshot (fun _ => 0) (snapshotWithBlacklist ["b c"]) freshDb).2.isSome := by
    decide
  obtain ⟨e, he⟩ := Option.isSome_iff_exists.mp hfails
  refine ⟨_, e, Prod.ext rfl he, (no_torn_section_iff (Prod.ext rfl he)).mpr ?_⟩
  have hinvalid : ¬ ListPass freshDb.blacklist (snapshotWithBlacklist ["b c"]).blacklist := by
    intro hpass
    have hvalid := toBool_iff.mpr (hpass "b c" (.inr List.mem_cons_self))
    exact absurd hvalid (by decide)
  refine ⟨fun _ => .inr ?_, fun h => absurd h.2 hinvalid, fun h => absurd h.1.1.2 hinvalid,
    fun h => absurd h.1.1.1.2 hinvalid, fun h => absurd h.1.1.1.1.2 hinvalid⟩
  have htake : (oneSided freshDb.blacklist (snapshotWithBlacklist ["b c"]).blacklist).takeWhile
      (fun d => (Lists.normalize d).toBool) = [] := by
    decide
  rw [htake]
  simp

/-- A blacklist that fails at its second domain keeps the first. -/
theorem half_written_blacklist :
    ¬ ∀ (clock : Nat → Int) (snap : ConfigSnapshot) (db db' : Db) (e : SyncError),
      applyConfigSnapshot clock snap db = (db', some e) →
      ∀ k : Section, k.Kept db db' ∨ k.Complete clock snap db db' := by
  intro hall
  have hfails :
      (applyConfigSnapshot (fun _ => 0) (snapshotWithBlacklist ["a", "b c"]) freshDb).2.isSome := by
    decide
  obtain ⟨e, he⟩ := Option.isSome_iff_exists.mp hfails
  rcases hall _ _ _ _ e (Prod.ext rfl he) .blacklist with hkept | ⟨t, hcomplete, _⟩
  · have hrows : (applyConfigSnapshot (fun _ => 0) (snapshotWithBlacklist ["a", "b c"])
        freshDb).1.blacklist.rows = [(1, "a.")] := by
      decide
    rw [Section.Kept, hrows] at hkept
    cases hkept
  · have hstops : (writeList (snapshotWithBlacklist ["a", "b c"]).blacklist
        freshDb.blacklist).2.isSome := by
      decide
    rw [hcomplete] at hstops
    cases hstops

end Sync

/-
The start of the server from its database (`app.rs`, `resolver/state.rs`), and the edits that
keep memory and database together in between (`web/*.rs`).

A handler commits its rows and then reloads what memory holds of them.  Any of its queries may
fail, which ends the handler where it is; `stale` are the parts of the configuration whose rows
were changed and that were not reloaded since.  The server may be restarted at any time.

* `keeps_stages` — a handler leaves a database the server can start from, and memory as the
  database has it for every part that is not stale, wherever it ends;
* `stale_stages` — one that gets through leaves no new part stale;
* `restart_transparent` — so the server can always start again, and a restart only brings stale
  parts up to date: after handlers that all got through, queries are decided as before it.
-/
import Sagittarius.Script
import Sagittarius.RecordEdits
import Sagittarius.Unblock
import Sagittarius.UpstreamEdits

open Codec Resolver Storage Sync Web

namespace App

/-! ### The start -/

/-- What memory holds of the configuration: `ResolverState` with its settings and its cache, and
the upstream pool. -/
structure Live where
  resolver : ResolverState
  settings : RuntimeSettings
  cache : DnsCache
  pool : ConnectedPool

/-- Why the server does not start. -/
inductive StartError where
  | storage (e : Storage.Error)
  | invalidLocalRecord (e : LocalRecordError)

/-- `ResolverState::hydrate`: the blocklist and the forward zones come later. -/
def hydrate (db : Db) : Except StartError (ResolverState × RuntimeSettings × DnsCache) := do
  let settings ← (Settings.get db.settings).mapError .storage
  let cache := DnsCache.new settings.cacheMinTtl settings.cacheMaxTtl
  let runtime := RuntimeSettings.ofSettings settings
  let blacklist ← (Lists.loadAll db.blacklist).mapError .storage
  let allowlist ← (Lists.loadAll db.allowlist).mapError .storage
  let rows ← (LocalRecords.list db.localRecords).mapError .storage
  let records ← (buildLocalRecords rows).mapError .invalidLocalRecord
  pure (⟨blacklist.toFinset, allowlist.toFinset, ∅, records, runtime.blockMode, .empty, 0⟩,
    runtime, cache)

/-- `run_until_ready`, up to the listeners; `cached` is what `load_from_cache` makes of the cached
blocklists. -/
def startUp (connects : UpstreamConfig → Bool) (cached : HashMap Name Int) (db : Db) :
    Except StartError Live := do
  let (resolver, settings, cache) ← hydrate db
  let rows ← (Upstreams.listEnabled db.upstreams).mapError .storage
  let pool := buildUpstreamPool connects (rows.filterMap UpstreamConfig.tryFrom)
    settings.upstreamSelectionStrategy settings.upstreamParallelFanout
  let zones := ForwardZoneSet.build (ForwardZones.listEnabled db.forwardZones)
  pure ⟨{ resolver with blocklist := cached, forwardZones := zones }, settings, cache, pool⟩

/-! ### The handlers -/

/-- The parts that are reloaded, each as a whole. -/
inductive Part where
  | blacklist
  | allowlist
  | localRecords
  | forwardZones
  | pool
  deriving DecidableEq, Repr

/-- The server: its database, its memory, and the parts that memory is behind with. -/
structure Server where
  db : Db
  live : Live
  stale : Finset Part

/-- How a handler fails. -/
inductive HandlerError where
  | web (e : WebError)
  | internal (e : LocalRecordError)

/-- `reload_blacklist`, `reload_allowlist`, `reload_local_records`, `rebuild_forward_zones` and
`rebuild_upstream_pool`. -/
def reloaded (connects : UpstreamConfig → Bool) (db : Db) (live : Live) :
    Part → Except HandlerError Live
  | .blacklist => do
    let names ← (Lists.loadAll db.blacklist).mapError (fun e => .web (.storage e))
    pure { live with resolver := { live.resolver with blacklist := names.toFinset } }
  | .allowlist => do
    let names ← (Lists.loadAll db.allowlist).mapError (fun e => .web (.storage e))
    pure { live with resolver := { live.resolver with allowlist := names.toFinset } }
  | .localRecords => do
    let rows ← (LocalRecords.list db.localRecords).mapError (fun e => .web (.storage e))
    let records ← (buildLocalRecords rows).mapError .internal
    pure { live with resolver := { live.resolver with localRecords := records } }
  | .forwardZones =>
    let zones := ForwardZoneSet.build (ForwardZones.listEnabled db.forwardZones)
    .ok { live with
      resolver := { live.resolver with forwardZones := zones }
      cache := live.cache.clear }
  | .pool => do
    let rows ← (Upstreams.listEnabled db.upstreams).mapError (fun e => .web (.storage e))
    let pool := buildUpstreamPool connects (rows.filterMap UpstreamConfig.tryFrom)
      live.settings.upstreamSelectionStrategy live.settings.upstreamParallelFanout
    pure { live with pool := pool }

/-- A stage of a handler: up to the next query that may fail. -/
abbrev Stage := Script HandlerError Server

/-- Rows of a part are changed. -/
def write (p : Part) (f : Db → Except WebError Db) : Stage := Script.attempt (fun s =>
  match f s.db with
  | .ok db => .ok { s with db := db, stale := insert p s.stale }
  | .error e => .error (.web e))

/-- A part is reloaded. -/
def reload (connects : UpstreamConfig → Bool) (p : Part) : Stage := Script.attempt (fun s =>
  match reloaded connects s.db s.live p with
  | .ok live => .ok { s with live := live, stale := s.stale.erase p }
  | .error e => .error e)

/-- `store_settings` and `set_ttl_bounds`. -/
def Live.withSettings (live : Live) (settings : Settings) : Live :=
  let runtime := RuntimeSettings.ofSettings settings
  { live with
    resolver := { live.resolver with blockMode := runtime.blockMode }
    settings := runtime
    cache := live.cache.setTtlBounds settings.cacheMinTtl settings.cacheMaxTtl }

/-- The settings a form makes, with the row they are written to. -/
def savedSettings (form : SettingsForm) (row : SettingsRow) :
    Except WebError (Settings × SettingsRow) := do
  let stored ← (Settings.get row).mapError .storage
  let settings ← form.intoSettings stored.uiTheme
  let row ← (Settings.update settings).mapError .storage
  pure (settings, row)

/-- `apply_settings`, up to the rebuild of the pool. -/
def saveSettings (form : SettingsForm) : Stage := Script.attempt (fun s =>
  match savedSettings form s.db.settings with
  | .ok (settings, row) => .ok ⟨{ s.db with settings := row }, s.live.withSettings settings,
      insert .pool s.stale⟩
  | .error e => .error (.web e))

/-- The row with the other theme. -/
def toggledRow (row : SettingsRow) : Except WebError SettingsRow := do
  let stored ← (Settings.get row).mapError .storage
  (Settings.update (TtlBounds.toggleTheme stored)).mapError .storage

/-- `theme_toggle`. -/
def toggleTheme : Stage := Script.attempt (fun s =>
  match toggledRow s.db.settings with
  | .ok row => .ok { s with db := { s.db with settings := row } }
  | .error e => .error (.web e))

def writeBlacklist (edit : ListEdit) : Stage := write .blacklist (fun db =>
  (edit.commit db.blacklist).map (fun t => { db with blacklist := t }))

def writeAllowlist (edit : ListEdit) : Stage := write .allowlist (fun db =>
  (edit.commit db.allowlist).map (fun t => { db with allowlist := t }))

def writeRecords (edit : RecordEdit) : Stage := write .localRecords (fun db =>
  (edit.commit db.localRecords).map (fun t => { db with localRecords := t }))

def writeZones (edit : ZoneEdit) : Stage := write .forwardZones (fun db =>
  (edit.commit db.forwardZones).map (fun t => { db with forwardZones := t }))

/-- `set_target` of the repository, for a target that is checked. -/
def writeTarget (id : Nat) (target : String) : Stage := write .forwardZones (fun db =>
  .ok { db with forwardZones := ForwardZones.setTarget db.forwardZones id (some target) })

def writeUpstreams (f : UpstreamTable → Except WebError UpstreamTable) : Stage :=
  write .pool (fun db => (f db.upstreams).map (fun t => { db with upstreams := t }))

/-- The requests that change the configuration. -/
inductive Action where
  | blacklist (edit : ListEdit)
  | allowlist (edit : ListEdit)
  | unblock (domain : String)
  | localRecord (edit : RecordEdit)
  | zone (edit : ZoneEdit)
  | applyToAll (target : String)
  | addUpstream (form : AddUpstreamForm)
  | removeUpstream (id : Nat)
  | toggleUpstream (id : Nat) (enabled : Bool)
  | saveSettings (form : SettingsForm)
  | toggleTheme

/-- `apply_target_to_all`: two statements for each zone. -/
def applyToAll (connects : UpstreamConfig → Bool) (raw : String) (zones : List ForwardZone) :
    List Stage :=
  match normalizeTarget raw with
  | .error e => [Script.check (fun _ => some (.web e))]
  | .ok none => [Script.check (fun _ => some (.web (.badRequest
      "Enter the router/DHCP resolver address to forward all reverse zones to.")))]
  | .ok (some target) =>
    zones.flatMap (fun z =>
        [writeTarget z.id target, writeZones (.setEnabled z.id true)])
      ++ [reload connects .forwardZones]

/-- The stages of a handler. -/
def stages (connects : UpstreamConfig → Bool) (s : Server) : Action → List Stage
  | .blacklist edit => [writeBlacklist edit, reload connects .blacklist]
  | .allowlist edit => [writeAllowlist edit, reload connects .allowlist]
  | .unblock domain =>
    let onBlacklist : Bool :=
      match Name.fromStr domain with
      | .ok n => n ∈ s.live.resolver.blacklist
      | .error _ => false
    if onBlacklist then [writeBlacklist (.remove domain), reload connects .blacklist]
    else [writeAllowlist (.add domain), reload connects .allowlist]
  | .localRecord edit => [writeRecords edit, reload connects .localRecords]
  | .zone edit => [writeZones edit, reload connects .forwardZones]
  | .applyToAll raw => applyToAll connects raw (ForwardZones.list s.db.forwardZones)
  | .addUpstream form => [writeUpstreams (Web.addUpstream form), reload connects .pool]
  | .removeUpstream id =>
    [writeUpstreams (fun t => .ok (Upstreams.delete t id)), reload connects .pool]
  | .toggleUpstream id enabled =>
    [writeUpstreams (fun t => .ok (Upstreams.setEnabled t id enabled)), reload connects .pool]
  | .saveSettings form => [App.saveSettings form, reload connects .pool]
  | .toggleTheme => [App.toggleTheme]

/-! ### Runs -/

/-- `cut` is how many stages a handler gets through before a query of it fails, if one does. -/
inductive Event where
  | request (action : Action) (connects : UpstreamConfig → Bool) (cut : Option Nat)
  | refreshed (blocklist : HashMap Name Int)
  | pause (now secs : Int64)
  | resume
  | restart (connects : UpstreamConfig → Bool) (cached : HashMap Name Int)

/-- The stages that are run. -/
def taken (cut : Option Nat) (ms : List Stage) : List Stage :=
  match cut with
  | none => ms
  | some k => ms.take k

/-- The resolver is changed in memory only. -/
def Server.withResolver (s : Server) (resolver : ResolverState) : Server :=
  { s with live := { s.live with resolver := resolver } }

def step (s : Server) : Event → Option Server
  | .request action connects cut =>
    some (Script.forEach id (taken cut (stages connects s action)) s).1
  | .refreshed blocklist =>
    some (s.withResolver { s.live.resolver with blocklist := blocklist })
  | .pause now secs => some (s.withResolver (s.live.resolver.pauseForSecs now secs))
  | .resume => some (s.withResolver s.live.resolver.resume)
  | .restart connects cached =>
    match startUp connects cached s.db with
    | .ok live => some ⟨s.db, live, ∅⟩
    | .error _ => none

/-! ### What every step keeps -/

/-- A database the server can start from. -/
structure Sound (db : Db) : Prop where
  settings : ∃ settings, Settings.get db.settings = .ok settings
  blacklist : ∀ d ∈ domains db.blacklist, ∃ n, Name.fromStr d = .ok n
  allowlist : ∀ d ∈ domains db.allowlist, ∃ n, Name.fromStr d = .ok n
  localRecords : WellFormed db.localRecords
  upstreams : ∀ row ∈ db.upstreams.rows, UpstreamRuns.Usable row

/-- Memory has a part as the database has it. -/
def Fresh (db : Db) (live : Live) : Part → Prop
  | .blacklist => ∃ names, Lists.loadAll db.blacklist = .ok names ∧
      live.resolver.blacklist = names.toFinset
  | .allowlist => ∃ names, Lists.loadAll db.allowlist = .ok names ∧
      live.resolver.allowlist = names.toFinset
  | .localRecords => ∃ rows, LocalRecords.list db.localRecords = .ok rows ∧
      buildLocalRecords rows = .ok live.resolver.localRecords
  | .forwardZones =>
    live.resolver.forwardZones = ForwardZoneSet.build (ForwardZones.listEnabled db.forwardZones)
  | .pool => ∃ connects rows, Upstreams.listEnabled db.upstreams = .ok rows ∧
      live.pool = buildUpstreamPool connects (rows.filterMap UpstreamConfig.tryFrom)
        live.settings.upstreamSelectionStrategy live.settings.upstreamParallelFanout

/-- Memory has the settings as the database has them. -/
def SettingsFresh (db : Db) (live : Live) : Prop :=
  ∃ settings, Settings.get db.settings = .ok settings ∧
    live.settings = RuntimeSettings.ofSettings settings ∧
    live.resolver.blockMode = live.settings.blockMode ∧
    live.cache.ttlBounds = packBounds settings.cacheMinTtl settings.cacheMaxTtl

structure Inv (s : Server) : Prop where
  sound : Sound s.db
  settings : SettingsFresh s.db s.live
  fresh : ∀ p, p ∉ s.stale → Fresh s.db s.live p

variable {connects : UpstreamConfig → Bool} {cached : HashMap Name Int} {db db' : Db}
  {live : Live} {s s' : Server} {p : Part}

/-! #### The loads -/

/-- What a reload does to memory. -/
structure Reloads (db : Db) (p : Part) (live live' : Live) : Prop where
  part : Fresh db live' p
  others : ∀ q, q ≠ p → Fresh db live q → Fresh db live' q
  settings : SettingsFresh db live → SettingsFresh db live'

theorem reloads {live' : Live} (h : reloaded connects db live p = .ok live') :
    Reloads db p live live' := by
  cases p with
  | blacklist =>
    obtain ⟨names, hnames, h⟩ := bind_ok_iff.mp h
    cases h
    refine ⟨⟨names, mapError_ok hnames, rfl⟩, fun q hq hfresh => ?_, id⟩
    cases q with
    | blacklist => exact absurd rfl hq
    | _ => exact hfresh
  | allowlist =>
    obtain ⟨names, hnames, h⟩ := bind_ok_iff.mp h
    cases h
    refine ⟨⟨names, mapError_ok hnames, rfl⟩, fun q hq hfresh => ?_, id⟩
    cases q with
    | allowlist => exact absurd rfl hq
    | _ => exact hfresh
  | localRecords =>
    obtain ⟨rows, hrows, h⟩ := bind_ok_iff.mp h
    obtain ⟨records, hbuild, h⟩ := bind_ok_iff.mp h
    cases h
    refine ⟨⟨rows, mapError_ok hrows, mapError_ok hbuild⟩, fun q hq hfresh => ?_, id⟩
    cases q with
    | localRecords => exact absurd rfl hq
    | _ => exact hfresh
  | forwardZones =>
    cases h
    refine ⟨rfl, fun q hq hfresh => ?_, id⟩
    cases q with
    | forwardZones => exact absurd rfl hq
    | _ => exact hfresh
  | pool =>
    obtain ⟨rows, hrows, h⟩ := bind_ok_iff.mp h
    cases h
    refine ⟨⟨connects, rows, mapError_ok hrows, rfl⟩, fun q hq hfresh => ?_, id⟩
    cases q with
    | pool => exact absurd rfl hq
    | _ => exact hfresh

/-! #### The stages -/

theorem keeps_reload (connects : UpstreamConfig → Bool) (p : Part) :
    Script.Keeps Inv (reload connects p) := by
  refine .attempt (fun s s' h hs => ?_)
  cases hlive : reloaded connects s.db s.live p with
  | error e =>
    rw [hlive] at hs
    cases hs
  | ok live' =>
    rw [hlive] at hs
    cases hs
    have hreloads := reloads hlive
    refine ⟨h.sound, hreloads.settings h.settings, fun q hq => ?_⟩
    by_cases hqp : q = p
    · rw [hqp]
      exact hreloads.part
    · exact hreloads.others q hqp (h.fresh q (fun hmem => hq (Finset.mem_erase.mpr ⟨hqp, hmem⟩)))

/-- A change of the rows of one part. -/
structure Changes (p : Part) (db db' : Db) : Prop where
  sound : Sound db'
  settings : db'.settings = db.settings
  others : ∀ live q, q ≠ p → Fresh db live q → Fresh db' live q

theorem keeps_write {f : Db → Except WebError Db}
    (hf : ∀ db db', Sound db → f db = .ok db' → Changes p db db') :
    Script.Keeps Inv (write p f) := by
  refine .attempt (fun s s' h hs => ?_)
  cases hdb : f s.db with
  | error e =>
    rw [hdb] at hs
    cases hs
  | ok db' =>
    rw [hdb] at hs
    cases hs
    have hchanges := hf s.db db' h.sound hdb
    refine ⟨hchanges.sound, ?_, fun q hq => ?_⟩
    · rw [SettingsFresh, hchanges.settings]
      exact h.settings
    · rw [Finset.mem_insert, not_or] at hq
      exact hchanges.others s.live q hq.1 (h.fresh q hq.2)

/-- A list edit keeps names only. -/
theorem names_of_commit {t t' : DomainTable} {edit : ListEdit}
    (h : ∀ d ∈ domains t, ∃ n, Name.fromStr d = .ok n) (hcommit : edit.commit t = .ok t') :
    ∀ d ∈ domains t', ∃ n, Name.fromStr d = .ok n := by
  intro d hd
  cases edit with
  | add domain =>
    have hadd := mapError_ok hcommit
    cases hname : Name.fromStr domain with
    | error e =>
      rw [Lists.add, Lists.normalize, hname] at hadd
      cases hadd
    | ok n =>
      obtain hold | rfl := (mem_domains_of_add (normalize_of_fromStr hname) hadd).mp hd
      · exact h d hold
      · exact ⟨n, Name.fromStr_display n⟩
  | remove domain =>
    have hremove := mapError_ok hcommit
    cases hname : Name.fromStr domain with
    | error e =>
      rw [Lists.remove, Lists.normalize, hname] at hremove
      cases hremove
    | ok n => exact h d ((mem_domains_of_remove (normalize_of_fromStr hname) hremove).mp hd).1

theorem map_ok {ε α β : Type} {x : Except ε α} {f : α → β} {b : β} (h : x.map f = .ok b) :
    ∃ a, x = .ok a ∧ f a = b := by
  cases x with
  | error e => cases h
  | ok a =>
    cases h
    exact ⟨a, rfl, rfl⟩

theorem keeps_writeBlacklist (edit : ListEdit) : Script.Keeps Inv (writeBlacklist edit) := by
  refine keeps_write (fun db db' h hdb => ?_)
  obtain ⟨t, ht, rfl⟩ := map_ok hdb
  refine ⟨{ h with blacklist := names_of_commit h.blacklist ht }, rfl, fun live q hq hfresh => ?_⟩
  cases q with
  | blacklist => exact absurd rfl hq
  | _ => exact hfresh

theorem keeps_writeAllowlist (edit : ListEdit) : Script.Keeps Inv (writeAllowlist edit) := by
  refine keeps_write (fun db db' h hdb => ?_)
  obtain ⟨t, ht, rfl⟩ := map_ok hdb
  refine ⟨{ h with allowlist := names_of_commit h.allowlist ht }, rfl, fun live q hq hfresh => ?_⟩
  cases q with
  | allowlist => exact absurd rfl hq
  | _ => exact hfresh

theorem keeps_writeRecords (edit : RecordEdit) : Script.Keeps Inv (writeRecords edit) := by
  refine keeps_write (fun db db' h hdb => ?_)
  obtain ⟨t, ht, rfl⟩ := map_ok hdb
  have hedit : editRecords db.localRecords edit = some t := by rw [editRecords, ht]; rfl
  refine ⟨{ h with localRecords := wellFormed_step h.localRecords hedit }, rfl,
    fun live q hq hfresh => ?_⟩
  cases q with
  | localRecords => exact absurd rfl hq
  | _ => exact hfresh

/-- Whatever the zones are, they can be built. -/
theorem changes_zones (h : Sound db) (zones : ForwardZoneTable) :
    Changes .forwardZones db { db with forwardZones := zones } := by
  refine ⟨{ h with }, rfl, fun live q hq hfresh => ?_⟩
  cases q with
  | forwardZones => exact absurd rfl hq
  | _ => exact hfresh

theorem keeps_writeZones (edit : ZoneEdit) : Script.Keeps Inv (writeZones edit) := by
  refine keeps_write (fun db db' h hdb => ?_)
  obtain ⟨t, -, rfl⟩ := map_ok hdb
  exact changes_zones h t

theorem keeps_writeTarget (id : Nat) (target : String) :
    Script.Keeps Inv (writeTarget id target) := by
  refine keeps_write (fun db db' h hdb => ?_)
  cases hdb
  exact changes_zones h _

theorem keeps_writeUpstreams {f : UpstreamTable → Except WebError UpstreamTable}
    (hf : ∀ t t', (∀ row ∈ t.rows, UpstreamRuns.Usable row) → f t = .ok t' →
      ∀ row ∈ t'.rows, UpstreamRuns.Usable row) : Script.Keeps Inv (writeUpstreams f) := by
  refine keeps_write (fun db db' h hdb => ?_)
  obtain ⟨t, ht, rfl⟩ := map_ok hdb
  refine ⟨{ h with upstreams := hf _ _ h.upstreams ht }, rfl, fun live q hq hfresh => ?_⟩
  cases q with
  | pool => exact absurd rfl hq
  | _ => exact hfresh

theorem keeps_addUpstream (form : AddUpstreamForm) :
    Script.Keeps Inv (writeUpstreams (Web.addUpstream form)) :=
  keeps_writeUpstreams (fun _ _ hall hadd => UpstreamRuns.usable_addUpstream hadd hall)

theorem keeps_removeUpstream (id : Nat) :
    Script.Keeps Inv (writeUpstreams (fun t => .ok (Upstreams.delete t id))) := by
  refine keeps_writeUpstreams (fun t t' hall ht => ?_)
  cases ht
  exact UpstreamRuns.usable_delete hall id

theorem keeps_toggleUpstream (id : Nat) (enabled : Bool) :
    Script.Keeps Inv (writeUpstreams (fun t => .ok (Upstreams.setEnabled t id enabled))) := by
  refine keeps_writeUpstreams (fun t t' hall ht => ?_)
  cases ht
  exact UpstreamRuns.usable_toggle hall id enabled

/-- What a save writes can be read back, if the capacity fits into the row. -/
theorem get_of_savedSettings {form : SettingsForm} {row row' : SettingsRow} {settings : Settings}
    (hcap : form.cacheCapacity.toNat < 2 ^ 63)
    (h : savedSettings form row = .ok (settings, row')) : Settings.get row' = .ok settings := by
  obtain ⟨stored, -, h⟩ := bind_ok_iff.mp h
  obtain ⟨made, hmade, h⟩ := bind_ok_iff.mp h
  obtain ⟨written, hwritten, h⟩ := bind_ok_iff.mp h
  cases h
  obtain ⟨-, hcapacity, -⟩ := intoSettings_ok hmade
  exact Settings.get_of_capacity_lt (mapError_ok hwritten) (hcapacity ▸ hcap)

theorem keeps_saveSettings {form : SettingsForm} (hcap : form.cacheCapacity.toNat < 2 ^ 63) :
    Script.Keeps Inv (App.saveSettings form) := by
  refine .attempt (fun s s' h hs => ?_)
  split at hs
  · rename_i settings row hsaved
    cases hs
    have hget := get_of_savedSettings hcap hsaved
    refine ⟨{ h.sound with settings := ⟨settings, hget⟩ }, ⟨settings, hget, rfl, rfl, rfl⟩,
      fun q hq => ?_⟩
    rw [Finset.mem_insert, not_or] at hq
    have hfresh := h.fresh q hq.2
    cases q with
    | pool => exact absurd rfl hq.1
    | _ => exact hfresh
  · cases hs

/-- The other theme leaves the rest of the row. -/
theorem get_of_toggledRow {row row' : SettingsRow} (h : toggledRow row = .ok row') :
    ∃ stored, Settings.get row = .ok stored ∧
      Settings.get row' = .ok (TtlBounds.toggleTheme stored) := by
  obtain ⟨stored, hstored, h⟩ := bind_ok_iff.mp h
  have hstored := mapError_ok hstored
  have hcap : stored.cacheCapacity.toNat < 2 ^ 63 := capacity_of_decode hstored
  exact ⟨stored, hstored, Settings.get_of_capacity_lt (mapError_ok h) hcap⟩

theorem keeps_toggleTheme : Script.Keeps Inv App.toggleTheme := by
  refine .attempt (fun s s' h hs => ?_)
  split at hs
  · rename_i row hrow
    cases hs
    obtain ⟨stored, hstored, hget⟩ := get_of_toggledRow hrow
    obtain ⟨settings, hsettings, hlive, hmode, hbounds⟩ := h.settings
    rw [hstored, Except.ok.injEq] at hsettings
    subst hsettings
    -- The theme is no part of the live settings.
    refine ⟨{ h.sound with settings := ⟨_, hget⟩ }, ⟨_, hget, hlive, hmode, hbounds⟩, ?_⟩
    intro q hq
    have hfresh := h.fresh q hq
    cases q <;> exact hfresh
  · cases hs

/-! #### The handlers -/

/-- The capacity of a settings form fits into the row. -/
def Action.Fits : Action → Prop
  | .saveSettings form => form.cacheCapacity.toNat < 2 ^ 63
  | _ => True

instance Action.decidableFits : ∀ action : Action, Decidable action.Fits
  | .saveSettings _ => inferInstanceAs (Decidable (_ < _))
  | .blacklist _ | .allowlist _ | .unblock _ | .localRecord _ | .zone _ | .applyToAll _
  | .addUpstream _ | .removeUpstream _ | .toggleUpstream .. | .toggleTheme => instDecidableTrue

theorem keeps_applyToAll (connects : UpstreamConfig → Bool) (raw : String)
    (zones : List ForwardZone) : ∀ m ∈ applyToAll connects raw zones, Script.Keeps Inv m := by
  intro m hm
  rw [applyToAll] at hm
  split at hm
  · obtain rfl := List.mem_singleton.mp hm
    exact .check _
  · obtain rfl := List.mem_singleton.mp hm
    exact .check _
  · obtain hm | hm := List.mem_append.mp hm
    · obtain ⟨z, -, hm⟩ := List.mem_flatMap.mp hm
      obtain rfl | hm := List.mem_cons.mp hm
      · exact keeps_writeTarget _ _
      · obtain rfl := List.mem_singleton.mp hm
        exact keeps_writeZones _
    · obtain rfl := List.mem_singleton.mp hm
      exact keeps_reload _ _

theorem keeps_pair {m n : Stage} (hm : Script.Keeps Inv m) (hn : Script.Keeps Inv n) :
    ∀ x ∈ [m, n], Script.Keeps Inv x := by
  intro x hx
  obtain rfl | hx := List.mem_cons.mp hx
  · exact hm
  · obtain rfl := List.mem_singleton.mp hx
    exact hn

/-- Every stage of a handler keeps the invariant. -/
theorem keeps_stages {action : Action} (hfits : action.Fits) (connects : UpstreamConfig → Bool)
    (s : Server) : ∀ m ∈ stages connects s action, Script.Keeps Inv m := by
  have hreload := fun p => keeps_reload connects p
  cases action with
  | blacklist edit => exact keeps_pair (keeps_writeBlacklist edit) (hreload _)
  | allowlist edit => exact keeps_pair (keeps_writeAllowlist edit) (hreload _)
  | unblock domain =>
    rw [stages]
    split_ifs
    · exact keeps_pair (keeps_writeBlacklist _) (hreload _)
    · exact keeps_pair (keeps_writeAllowlist _) (hreload _)
  | localRecord edit => exact keeps_pair (keeps_writeRecords edit) (hreload _)
  | zone edit => exact keeps_pair (keeps_writeZones edit) (hreload _)
  | applyToAll raw => exact keeps_applyToAll connects raw _
  | addUpstream form => exact keeps_pair (keeps_addUpstream form) (hreload _)
  | removeUpstream id => exact keeps_pair (keeps_removeUpstream id) (hreload _)
  | toggleUpstream id enabled => exact keeps_pair (keeps_toggleUpstream id enabled) (hreload _)
  | saveSettings form => exact keeps_pair (keeps_saveSettings hfits) (hreload _)
  | toggleTheme =>
    intro m hm
    obtain rfl := List.mem_singleton.mp hm
    exact keeps_toggleTheme

/-! ### Stale parts -/

/-- A stage that makes no part stale but one, and none when it fails. -/
structure Stales (p : Part) (m : Stage) : Prop where
  stale : ∀ s, (m s).1.stale ⊆ insert p s.stale
  failed : ∀ s e, (m s).2 = some e → (m s).1 = s

theorem Stales.attempt {f : Server → Except HandlerError Server}
    (h : ∀ s s', f s = .ok s' → s'.stale ⊆ insert p s.stale) : Stales p (Script.attempt f) := by
  refine ⟨fun s => ?_, fun s e he => ?_⟩
  · rw [Script.attempt]
    cases hf : f s with
    | ok s' => exact h s s' hf
    | error e => exact Finset.subset_insert p s.stale
  · rw [Script.attempt] at he ⊢
    cases hf : f s with
    | ok s' =>
      rw [hf] at he
      cases he
    | error e => rfl

/-- A handler gets through, or it is no handler. -/
def Event.Complete : Event → Prop
  | .request _ _ cut => cut = none
  | _ => True

/-- The settings of the event fit into their row. -/
def Event.Fits : Event → Prop
  | .request action _ _ => action.Fits
  | _ => True

/-- What a start makes of the database. -/
theorem startUp_ok (h : startUp connects cached db = .ok live) :
    SettingsFresh db live ∧ (∀ p, Fresh db live p) ∧ live.resolver.blocklist = cached ∧
      live.resolver.pausedUntil = 0 ∧
      ∃ rows, Upstreams.listEnabled db.upstreams = .ok rows ∧
        live.pool = buildUpstreamPool connects (rows.filterMap UpstreamConfig.tryFrom)
          live.settings.upstreamSelectionStrategy live.settings.upstreamParallelFanout := by
  obtain ⟨⟨resolver, runtime, cache⟩, hhydrate, h⟩ := bind_ok_iff.mp h
  obtain ⟨upstreams, hupstreams, h⟩ := bind_ok_iff.mp h
  cases h
  obtain ⟨settings, hsettings, hhydrate⟩ := bind_ok_iff.mp hhydrate
  obtain ⟨blacklist, hblacklist, hhydrate⟩ := bind_ok_iff.mp hhydrate
  obtain ⟨allowlist, hallowlist, hhydrate⟩ := bind_ok_iff.mp hhydrate
  obtain ⟨rows, hrows, hhydrate⟩ := bind_ok_iff.mp hhydrate
  obtain ⟨records, hrecords, hhydrate⟩ := bind_ok_iff.mp hhydrate
  cases hhydrate
  refine ⟨⟨settings, mapError_ok hsettings, rfl, rfl, rfl⟩, fun p => ?_, rfl, rfl, upstreams,
    mapError_ok hupstreams, rfl⟩
  cases p with
  | blacklist => exact ⟨blacklist, mapError_ok hblacklist, rfl⟩
  | allowlist => exact ⟨allowlist, mapError_ok hallowlist, rfl⟩
  | localRecords => exact ⟨rows, mapError_ok hrows, mapError_ok hrecords⟩
  | forwardZones => rfl
  | pool => exact ⟨connects, upstreams, mapError_ok hupstreams, rfl⟩

theorem inv_startUp (h : Sound db) (hstart : startUp connects cached db = .ok live) :
    Inv ⟨db, live, ∅⟩ := by
  obtain ⟨hsettings, hfresh, -⟩ := startUp_ok hstart
  exact ⟨h, hsettings, fun p _ => hfresh p⟩

theorem keeps_taken {ms : List Stage} (h : ∀ m ∈ ms, Script.Keeps Inv m) (cut : Option Nat) :
    ∀ m ∈ taken cut ms, Script.Keeps Inv m := by
  cases cut with
  | none => exact h
  | some k => exact fun m hm => h m (List.mem_of_mem_take hm)

/-- A restart that succeeds leaves what the start reads from the database. -/
theorem restarted_of_step (he : step s (.restart connects cached) = some s') :
    ∃ live, startUp connects cached s.db = .ok live ∧ s' = ⟨s.db, live, ∅⟩ := by
  unfold step at he
  dsimp only at he
  cases hstart : startUp connects cached s.db with
  | ok live =>
    rw [hstart] at he
    cases he
    exact ⟨live, rfl, rfl⟩
  | error e =>
    rw [hstart] at he
    cases he

theorem inv_step {e : Event} (h : Inv s) (hfits : e.Fits) (he : step s e = some s') : Inv s' := by
  -- The blocklist and the pause are in no table, so no part is compared with them.
  have hother : ∀ resolver : ResolverState,
      resolver = { s.live.resolver with
        blocklist := resolver.blocklist, pausedUntil := resolver.pausedUntil } →
      Inv (s.withResolver resolver) := by
    intro resolver hsame
    obtain ⟨settings, hsettings, hlive, hmode, hbounds⟩ := h.settings
    rw [Server.withResolver, hsame]
    refine ⟨h.sound, ⟨settings, hsettings, hlive, hmode, hbounds⟩, fun p hp => ?_⟩
    have hfresh := h.fresh p hp
    cases p <;> exact hfresh
  cases e with
  | request action connects cut =>
    cases he
    exact Script.Keeps.forEach (keeps_taken (keeps_stages hfits connects s) cut) s h
  | refreshed blocklist =>
    cases he
    exact hother _ rfl
  | pause now secs =>
    cases he
    exact hother _ rfl
  | resume =>
    cases he
    exact hother _ rfl
  | restart connects cached =>
    obtain ⟨live, hstart, rfl⟩ := restarted_of_step he
    exact inv_startUp h.sound hstart

end App

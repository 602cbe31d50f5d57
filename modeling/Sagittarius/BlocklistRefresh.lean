/-
Refreshing the blocklists (`blocklist/scheduler.rs`, `blocklist/aggregate.rs`, with
the types of `blocklist/fetch.rs` and the cache of `storage/blocklists.rs`).

A cycle asks every enabled source for its list, falls back to the cached body where
that gives nothing, and installs the merged map when every source had something to
contribute.  What the network and the storage do is given with the cycle.

* `refreshSource_eq` — what a source does to a cycle, in terms of what it can use;
* `refreshSources_eq` — the same for all sources, which do not get in each other's way;
* `refresh_result` — the map after a cycle, exactly.
-/
import Sagittarius.FirstWriter
import Sagittarius.BlocklistParse
import Sagittarius.Settings

open Codec Storage

namespace Blocklist

/-! ### Fetching -/

/-- `Validators`. -/
structure Validators where
  etag : Option String
  lastModified : Option String
  deriving DecidableEq, Repr

/-- `FetchOutcome`. -/
inductive FetchOutcome where
  | modified (body : List UInt8) (validators : Validators)
  | notModified
  deriving DecidableEq, Repr

/-- `FetchError`. -/
inductive FetchError where
  | request
  | unexpectedStatus (status : Nat)
  | bodyTooLarge (limit : Nat)
  | timeout
  deriving DecidableEq, Repr

/-! ### The tables -/

/-- `CachedContent`. -/
structure CachedContent where
  content : List UInt8
  fetchedAt : Int
  deriving DecidableEq, Repr

/-- `RefreshMetadata`. -/
structure RefreshMetadata where
  entryCount : UInt64
  lastUpdated : Int
  validators : Validators
  deriving DecidableEq, Repr

/-- The row after `update_refresh_metadata`. -/
def RefreshMetadata.write (m : RefreshMetadata) (b : BlocklistRow) : BlocklistRow :=
  { b with
    entryCount := (ofU64 m.entryCount).toInt
    lastUpdated := some m.lastUpdated
    etag := m.validators.etag
    lastModified := m.validators.lastModified }

theorem RefreshMetadata.write_keeps (m : RefreshMetadata) :
    Sql.Table.Keeps blocklistSchema m.write := ⟨fun _ _ => rfl, fun _ h => h⟩

/-- The tables `blocklists` and `blocklist_cache`: a cached body belongs to a source. -/
structure Store where
  sources : BlocklistTable
  cache : Nat → Option CachedContent
  foreign_key : ∀ id, cache id ≠ none → id ∈ sources.rows.map Prod.fst

namespace Store

/-- `list_enabled`, in id order. -/
def listEnabled (st : Store) : Except Storage.Error (List Blocklist) :=
  (st.sources.rows.filter (·.2.enabled)).mapM Blocklists.decode

/-- `load_cache`. -/
def loadCache (st : Store) (id : Nat) : Option CachedContent := st.cache id

/-- `save_cache`, at the time `now`: it fails for a source that is gone. -/
def saveCache (st : Store) (now : Int) (id : Nat) (content : List UInt8) : Option Store :=
  if h : id ∈ st.sources.rows.map Prod.fst then
    some {
      sources := st.sources
      cache := Function.update st.cache id (some ⟨content, now⟩)
      foreign_key := by
        intro i hi
        by_cases heq : i = id
        · exact heq ▸ h
        · rw [Function.update_of_ne heq] at hi
          exact st.foreign_key i hi }
  else none

/-- `update_refresh_metadata`. -/
def updateRefreshMetadata (st : Store) (id : Nat) (m : RefreshMetadata) : Store where
  sources := st.sources.modifyWhere (fun r => r.1 = id) m.write m.write_keeps
  cache := st.cache
  foreign_key := by
    rw [Sql.Table.ids_modifyWhere]
    exact st.foreign_key

end Store

/-! ### Aggregation -/

/-- `SourceContribution`. -/
structure SourceContribution where
  source : Int
  count : Nat
  deriving DecidableEq, Repr

/-- `Aggregator`. -/
structure Aggregator where
  merged : HashMap Name Int
  contributions : List SourceContribution

namespace Aggregator

/-- `Aggregator::new`. -/
def new : Aggregator := ⟨∅, []⟩

/-- `Aggregator::add`: a name that is there keeps its source. -/
def add (a : Aggregator) (sourceId : Int) (names : List Name) : Aggregator :=
  ⟨FirstWriter.orInsertAll a.merged sourceId names,
    a.contributions ++ [⟨sourceId, names.length⟩]⟩

end Aggregator

/-! ### A cycle -/

/-- `RefreshSummary`. -/
structure RefreshSummary where
  fetched : Nat
  notModified : Nat
  failed : Nat
  totalDomains : Nat
  deriving DecidableEq, Repr

/-- `SourceRefresh`. -/
inductive SourceRefresh where
  | contributed
  | incomplete
  deriving DecidableEq, Repr

/-- What a source meets in a cycle: the outcome of its fetch, the times of its
writes, and which of its storage calls fail. -/
structure SourceEvents where
  fetch : Except FetchError FetchOutcome
  savedAt : Int
  updatedAt : Int
  loadFails : Bool
  saveFails : Bool
  updateFails : Bool

/-- What a cycle carries from source to source. -/
structure Cycle where
  store : Store
  aggregator : Aggregator
  summary : RefreshSummary

/-- The names of a body. -/
def namesOf (format : BlocklistFormat) (content : List UInt8) : List Name :=
  format.parse (fromUtf8Lossy content)

/-- `decode_and_add`. -/
def decodeAndAdd (a : Aggregator) (sourceId : Int) (format : BlocklistFormat)
    (content : List UInt8) : Aggregator := a.add sourceId (namesOf format content)

/-- `add_cached_source`. -/
def addCachedSource (ev : SourceEvents) (source : Storage.Blocklist) (c : Cycle) :
    Cycle × SourceRefresh :=
  if ev.loadFails then (c, .incomplete)
  else
    match c.store.loadCache source.id with
    | some cached =>
      ({ c with aggregator := decodeAndAdd c.aggregator source.id source.format cached.content },
        .contributed)
    | none => (c, .incomplete)

/-- The writes of `handle_modified`: a write that fails is logged and left out. -/
def writeModified (ev : SourceEvents) (source : Storage.Blocklist) (body : List UInt8)
    (validators : Validators) (count : Nat) (st : Store) : Store :=
  let saved := if ev.saveFails then st else (st.saveCache ev.savedAt source.id body).getD st
  if ev.updateFails then saved
  else saved.updateRefreshMetadata source.id ⟨UInt64.ofNat count, ev.updatedAt, validators⟩

/-- `handle_modified`. -/
def handleModified (ev : SourceEvents) (source : Storage.Blocklist) (body : List UInt8)
    (validators : Validators) (c : Cycle) : Cycle × SourceRefresh :=
  let names := namesOf source.format body
  let count := names.length
  if count = 0 then
    addCachedSource ev source { c with summary.failed := c.summary.failed + 1 }
  else
    ({ store := writeModified ev source body validators count c.store
       aggregator := c.aggregator.add source.id names
       summary := { c.summary with fetched := c.summary.fetched + 1 } }, .contributed)

/-- `handle_not_modified`. -/
def handleNotModified (ev : SourceEvents) (source : Storage.Blocklist) (c : Cycle) :
    Cycle × SourceRefresh :=
  let (c, result) := addCachedSource ev source c
  let failed := if result = .incomplete then c.summary.failed + 1 else c.summary.failed
  ({ c with summary := { c.summary with notModified := c.summary.notModified + 1, failed } }, result)

/-- `handle_fetch_error`. -/
def handleFetchError (ev : SourceEvents) (source : Storage.Blocklist) (c : Cycle) :
    Cycle × SourceRefresh :=
  addCachedSource ev source { c with summary.failed := c.summary.failed + 1 }

/-- `refresh_source`. -/
def refreshSource (ev : SourceEvents) (source : Storage.Blocklist) (c : Cycle) :
    Cycle × SourceRefresh :=
  match ev.fetch with
  | .ok (.modified body validators) => handleModified ev source body validators c
  | .ok .notModified => handleNotModified ev source c
  | .error _ => handleFetchError ev source c

/-- The loop of `refresh_once`, with whether all sources have contributed so far. -/
def refreshSources (env : Nat → SourceEvents) (sources : List Storage.Blocklist)
    (start : Cycle × Bool) : Cycle × Bool :=
  sources.foldl (fun (c, complete) source =>
    let (c, result) := refreshSource (env source.id) source c
    (c, if result = .incomplete then false else complete)) start

/-- The scheduler's state: the tables and the live map. -/
structure Scheduler where
  store : Store
  live : HashMap Name Int

/-- What a cycle meets: whether the sources can be listed, and the sources' events. -/
structure CycleEvents where
  listFails : Bool
  source : Nat → SourceEvents

/-- The sources a cycle goes through, unless `list_enabled` fails. -/
def CycleEvents.listed (ev : CycleEvents) (st : Store) : Option (List Storage.Blocklist) :=
  if ev.listFails then none else st.listEnabled.toOption

namespace Scheduler

/-- `refresh_once`: no summary when the sources cannot be listed. -/
def refreshOnce (ev : CycleEvents) (s : Scheduler) : Scheduler × Option RefreshSummary :=
  match ev.listed s.store with
  | none => (s, none)
  | some sources =>
    let (c, complete) := refreshSources ev.source sources (⟨s.store, .new, ⟨0, 0, 0, 0⟩⟩, true)
    let live := if complete then c.aggregator.merged else s.live
    (⟨c.store, live⟩, some { c.summary with totalDomains := live.keys.length })

/-- The loop of `load_from_cache`: a source without a cached body is skipped. -/
def loadSources (loadFails : Nat → Bool) (st : Store) (sources : List Storage.Blocklist)
    (a : Aggregator) : Aggregator :=
  sources.foldl (fun a source =>
    if loadFails source.id then a
    else
      match st.loadCache source.id with
      | some cached => decodeAndAdd a source.id source.format cached.content
      | none => a) a

/-- `load_from_cache`. -/
def loadFromCache (ev : CycleEvents) (s : Scheduler) : Scheduler :=
  match ev.listed s.store with
  | none => s
  | some sources =>
    { s with live := (loadSources (fun id => (ev.source id).loadFails) s.store sources .new).merged }

end Scheduler

/-! ### What a source contributes -/

/-- The names of the cached body, if it can be read. -/
def cachedNames (ev : SourceEvents) (st : Store) (source : Storage.Blocklist) : Option (List Name) :=
  if ev.loadFails then none
  else (st.loadCache source.id).map (fun cached => namesOf source.format cached.content)

/-- What a source has to contribute: the names of a new body that has any, else those
of its cached body. -/
def usable (ev : SourceEvents) (st : Store) (source : Storage.Blocklist) : Option (List Name) :=
  match ev.fetch with
  | .ok (.modified body _) =>
    if namesOf source.format body = [] then cachedNames ev st source
    else some (namesOf source.format body)
  | _ => cachedNames ev st source

/-- The tables after a source: only a new body with names is written. -/
def storeAfter (ev : SourceEvents) (source : Storage.Blocklist) (st : Store) : Store :=
  match ev.fetch with
  | .ok (.modified body validators) =>
    if namesOf source.format body = [] then st
    else writeModified ev source body validators (namesOf source.format body).length st
  | _ => st

/-- The aggregator after a source. -/
def Aggregator.addUsable (a : Aggregator) (source : Storage.Blocklist) :
    Option (List Name) → Aggregator
  | some names => a.add source.id names
  | none => a

section Source

variable (ev : SourceEvents) (source : Storage.Blocklist) (c : Cycle)

theorem addCachedSource_eq :
    (addCachedSource ev source c).1.store = c.store ∧
      (addCachedSource ev source c).1.aggregator =
        c.aggregator.addUsable source (cachedNames ev c.store source) ∧
      ((addCachedSource ev source c).2 = .incomplete ↔ cachedNames ev c.store source = none) := by
  rw [addCachedSource, cachedNames]
  cases ev.loadFails with
  | true => exact ⟨rfl, rfl, by simp⟩
  | false =>
    cases c.store.loadCache source.id with
    | none => exact ⟨rfl, rfl, by simp⟩
    | some cached => exact ⟨rfl, rfl, by simp⟩

/-- What a source does to a cycle, in terms of what it can use. -/
theorem refreshSource_eq :
    (refreshSource ev source c).1.store = storeAfter ev source c.store ∧
      (refreshSource ev source c).1.aggregator =
        c.aggregator.addUsable source (usable ev c.store source) ∧
      ((refreshSource ev source c).2 = .incomplete ↔ usable ev c.store source = none) := by
  rw [refreshSource, usable, storeAfter]
  cases ev.fetch with
  | error e => exact addCachedSource_eq ev source _
  | ok outcome =>
    cases outcome with
    | notModified => exact addCachedSource_eq ev source _
    | modified body validators =>
      dsimp only
      rw [handleModified]
      by_cases hnames : namesOf source.format body = []
      · rw [if_pos (List.length_eq_zero_iff.mpr hnames), if_pos hnames, if_pos hnames]
        exact addCachedSource_eq ev source _
      · rw [if_neg (fun h => hnames (List.length_eq_zero_iff.mp h)), if_neg hnames, if_neg hnames]
        exact ⟨rfl, rfl, by simp⟩

end Source

/-- Two stores have the same body and the same row for a source. -/
structure Store.SameAt (id : Nat) (st st' : Store) : Prop where
  cache_eq : st'.cache id = st.cache id
  row_iff : ∀ v, (id, v) ∈ st'.sources.rows ↔ (id, v) ∈ st.sources.rows

theorem Store.SameAt.refl (id : Nat) (st : Store) : st.SameAt id st := ⟨rfl, fun _ => Iff.rfl⟩

theorem Store.SameAt.trans {id : Nat} {st st' st'' : Store} (h : SameAt id st st')
    (h' : SameAt id st' st'') : SameAt id st st'' :=
  ⟨h'.cache_eq.trans h.cache_eq, fun v => (h'.row_iff v).trans (h.row_iff v)⟩

theorem Store.SameAt.exists_iff {id : Nat} {st st' : Store} (h : SameAt id st st') :
    id ∈ st'.sources.rows.map Prod.fst ↔ id ∈ st.sources.rows.map Prod.fst := by
  simp only [List.mem_map, Prod.exists, exists_and_right, exists_eq_right]
  exact exists_congr h.row_iff

section Frame

variable {ev : SourceEvents} {source : Storage.Blocklist} {st st' : Store} {id : Nat}

/-- The cached bodies after the writes. -/
theorem cache_writeModified (ev : SourceEvents) (source : Storage.Blocklist) (body : List UInt8)
    (validators : Validators) (count : Nat) (st : Store) :
    (writeModified ev source body validators count st).cache =
      if ev.saveFails = false ∧ source.id ∈ st.sources.rows.map Prod.fst then
        Function.update st.cache source.id (some ⟨body, ev.savedAt⟩)
      else st.cache := by
  have hsaved : (writeModified ev source body validators count st).cache =
      (if ev.saveFails then st else (st.saveCache ev.savedAt source.id body).getD st).cache := by
    rw [writeModified]
    cases ev.updateFails <;> rfl
  rw [hsaved, Store.saveCache]
  cases ev.saveFails with
  | true => rfl
  | false =>
    rw [if_neg (by simp)]
    split_ifs with hmem hwritten hwritten
    · rfl
    · exact absurd ⟨rfl, hmem⟩ hwritten
    · exact absurd hwritten.2 hmem
    · rfl

/-- The rows after the writes. -/
theorem sources_writeModified (ev : SourceEvents) (source : Storage.Blocklist) (body : List UInt8)
    (validators : Validators) (count : Nat) (st : Store) :
    (writeModified ev source body validators count st).sources =
      if ev.updateFails then st.sources
      else st.sources.modifyWhere (fun r => r.1 = source.id)
        (RefreshMetadata.write ⟨UInt64.ofNat count, ev.updatedAt, validators⟩)
        (RefreshMetadata.write_keeps _) := by
  have hsaved : (if ev.saveFails then st
      else (st.saveCache ev.savedAt source.id body).getD st).sources = st.sources := by
    rw [Store.saveCache]
    cases ev.saveFails with
    | true => rfl
    | false =>
      rw [if_neg (by simp)]
      split_ifs <;> rfl
  rw [writeModified]
  cases ev.updateFails with
  | true => exact hsaved
  | false =>
    show Sql.Table.modifyWhere (if ev.saveFails then st
      else (st.saveCache ev.savedAt source.id body).getD st).sources _ _
        (RefreshMetadata.write_keeps _) = _
    rw [hsaved]
    rfl

/-- A source writes only a new body with names. -/
theorem storeAfter_cases (ev : SourceEvents) (source : Storage.Blocklist) (st : Store) :
    storeAfter ev source st = st ∨ ∃ body validators, ev.fetch = .ok (.modified body validators) ∧
      namesOf source.format body ≠ [] ∧ storeAfter ev source st =
        writeModified ev source body validators (namesOf source.format body).length st := by
  rw [storeAfter]
  cases hfetch : ev.fetch with
  | error e => exact .inl rfl
  | ok outcome =>
    cases outcome with
    | notModified => exact .inl rfl
    | modified body validators =>
      dsimp only
      split_ifs with hnames
      · exact .inl rfl
      · exact .inr ⟨body, validators, rfl, hnames, rfl⟩

/-- The writes of a source touch its own body and row only. -/
theorem storeAfter_of_ne (h : id ≠ source.id) : st.SameAt id (storeAfter ev source st) := by
  rcases storeAfter_cases ev source st with heq | ⟨body, validators, _, _, heq⟩
  · rw [heq]
    exact .refl id st
  · constructor
    · rw [heq, cache_writeModified]
      split_ifs
      · exact Function.update_of_ne h _ _
      · rfl
    · intro v
      rw [heq, sources_writeModified]
      split_ifs
      · exact Iff.rfl
      · exact Sql.Table.mem_modifyWhere_of_ne h

theorem writeModified_congr (h : st.SameAt source.id st') (body : List UInt8)
    (validators : Validators) (count : Nat) :
    (writeModified ev source body validators count st).SameAt source.id
      (writeModified ev source body validators count st') := by
  constructor
  · rw [cache_writeModified, cache_writeModified]
    simp only [h.exists_iff]
    split_ifs
    · rw [Function.update_self, Function.update_self]
    · exact h.cache_eq
  · intro v
    rw [sources_writeModified, sources_writeModified]
    split_ifs
    · exact h.row_iff v
    · rw [Sql.Table.mem_modifyWhere_of_eq, Sql.Table.mem_modifyWhere_of_eq]
      simp only [h.row_iff]

/-- What a source writes depends on its own body and row only. -/
theorem storeAfter_congr (h : st.SameAt source.id st') :
    (storeAfter ev source st).SameAt source.id (storeAfter ev source st') := by
  rw [storeAfter, storeAfter]
  cases ev.fetch with
  | error e => exact h
  | ok outcome =>
    cases outcome with
    | notModified => exact h
    | modified body validators =>
      dsimp only
      split_ifs
      · exact h
      · exact writeModified_congr h _ _ _

/-- What a source can use is not touched by another one. -/
theorem usable_storeAfter {ev' : SourceEvents} {other : Storage.Blocklist} (h : source.id ≠ other.id) :
    usable ev (storeAfter ev' other st) source = usable ev st source := by
  simp only [usable, cachedNames, Store.loadCache, (storeAfter_of_ne h).cache_eq]

end Frame

/-! ### All sources -/

/-- The tables after all sources. -/
def storeAfterAll (env : Nat → SourceEvents) (sources : List Storage.Blocklist) (st : Store) : Store :=
  sources.foldl (fun st s => storeAfter (env s.id) s st) st

/-- The contributions of the sources that have one, in order. -/
def groups (env : Nat → SourceEvents) (st : Store) (sources : List Storage.Blocklist) :
    List (Int × List Name) :=
  sources.filterMap (fun s => (usable (env s.id) st s).map (fun names => ((s.id : Int), names)))

section Loop

variable {env : Nat → SourceEvents}

theorem merged_addUsable (a : Aggregator) (source : Storage.Blocklist) (names : Option (List Name)) :
    (a.addUsable source names).merged =
      FirstWriter.merge a.merged (names.map (fun ns => ((source.id : Int), ns))).toList := by
  cases names with
  | none => rfl
  | some ns => rfl

theorem groups_cons (st : Store) (source : Storage.Blocklist) (sources : List Storage.Blocklist) :
    groups env st (source :: sources) =
      ((usable (env source.id) st source).map (fun ns => ((source.id : Int), ns))).toList ++
        groups env st sources := by
  rw [groups, List.filterMap_cons]
  cases usable (env source.id) st source with
  | none => rfl
  | some ns => rfl

/-- The sources of a cycle, one after the other: each uses what it would have used
alone. -/
theorem refreshSources_eq (env : Nat → SourceEvents) : ∀ (sources : List Storage.Blocklist) (c : Cycle) (complete : Bool),
    (sources.map (·.id)).Nodup →
    (refreshSources env sources (c, complete)).1.store =
        storeAfterAll env sources c.store ∧
      (refreshSources env sources (c, complete)).1.aggregator.merged =
        FirstWriter.merge c.aggregator.merged (groups env c.store sources) ∧
      ((refreshSources env sources (c, complete)).2 = true ↔
        complete = true ∧ ∀ s ∈ sources, usable (env s.id) c.store s ≠ none) := by
  intro sources
  induction sources with
  | nil =>
    intro c complete _
    exact ⟨rfl, rfl, by simp [refreshSources]⟩
  | cons source sources ih =>
    intro c complete hnodup
    obtain ⟨hnot, hnodup⟩ := List.nodup_cons.mp hnodup
    obtain ⟨hstore, haggregator, hresult⟩ := refreshSource_eq (env source.id) source c
    -- What the later sources can use is as before this one.
    have hframe : ∀ s ∈ sources, usable (env s.id) (storeAfter (env source.id) source c.store) s =
        usable (env s.id) c.store s := by
      intro s hs
      refine usable_storeAfter (fun heq => hnot ?_)
      exact List.mem_map.mpr ⟨s, hs, heq⟩
    obtain ⟨ihstore, ihmerged, ihcomplete⟩ := ih (refreshSource (env source.id) source c).1
      (if (refreshSource (env source.id) source c).2 = .incomplete then false else complete) hnodup
    refine ⟨?_, ?_, ?_⟩
    · rw [storeAfterAll, List.foldl_cons, ← hstore]
      exact ihstore
    · refine ihmerged.trans ?_
      have hgroups : groups env (storeAfter (env source.id) source c.store) sources =
          groups env c.store sources :=
        List.filterMap_congr (fun s hs => by rw [hframe s hs])
      rw [haggregator, hstore, merged_addUsable, groups_cons, hgroups, FirstWriter.merge_append]
    · refine ihcomplete.trans ?_
      rw [hstore, List.forall_mem_cons]
      constructor
      · rintro ⟨hbefore, hlater⟩
        split_ifs at hbefore with hincomplete
        exact ⟨hbefore, fun hnone => hincomplete (hresult.mpr hnone),
          fun s hs => hframe s hs ▸ hlater s hs⟩
      · rintro ⟨hbefore, hthis, hlater⟩
        refine ⟨?_, fun s hs => (hframe s hs).symm ▸ hlater s hs⟩
        rw [if_neg (fun hincomplete => hthis (hresult.mp hincomplete)), hbefore]

/-- Sources that are not listed are not touched. -/
theorem storeAfterAll_of_not_mem {id : Nat} : ∀ {sources : List Storage.Blocklist} {st : Store},
    id ∉ sources.map (·.id) → st.SameAt id (storeAfterAll env sources st) := by
  intro sources
  induction sources with
  | nil =>
    intro st _
    exact .refl id st
  | cons source sources ih =>
    intro st hnot
    rw [List.map_cons, List.mem_cons, not_or] at hnot
    exact (storeAfter_of_ne hnot.1).trans (ih hnot.2)

/-- A source that is listed writes what it would have written alone. -/
theorem storeAfterAll_of_mem (env : Nat → SourceEvents) {source : Storage.Blocklist} :
    ∀ {sources : List Storage.Blocklist} (st : Store), (sources.map (·.id)).Nodup →
      source ∈ sources →
      (storeAfter (env source.id) source st).SameAt source.id (storeAfterAll env sources st) := by
  intro sources
  induction sources with
  | nil =>
    intro st _ hmem
    cases hmem
  | cons s sources ih =>
    intro st hnodup hmem
    obtain ⟨hnot, hnodup⟩ := List.nodup_cons.mp hnodup
    rcases List.mem_cons.mp hmem with rfl | hmem
    · exact storeAfterAll_of_not_mem hnot
    · have hne : source.id ≠ s.id := fun heq => hnot (List.mem_map.mpr ⟨source, hmem, heq⟩)
      exact (storeAfter_congr (storeAfter_of_ne hne)).trans (ih _ hnodup hmem)

end Loop

/-! ### The listed sources -/

section Listed

variable {ev : CycleEvents} {st : Store} {sources : List Storage.Blocklist}

theorem id_of_decode (r : Nat × BlocklistRow) (b : Storage.Blocklist)
    (h : Blocklists.decode r = .ok b) : b.id = r.1 := by
  rw [Blocklists.decode] at h
  split at h
  · cases h
  · split_ifs at h
    cases h
    rfl

/-- The sources of a cycle come in the order of their ids. -/
theorem ids_of_listed (h : ev.listed st = some sources) :
    sources.map (·.id) = (st.sources.rows.filter (·.2.enabled)).map Prod.fst := by
  rw [CycleEvents.listed] at h
  split_ifs at h
  rw [Store.listEnabled] at h
  cases hread : (st.sources.rows.filter (·.2.enabled)).mapM Blocklists.decode with
  | error e =>
    rw [hread] at h
    cases h
  | ok bs =>
    rw [hread] at h
    cases h
    exact map_of_mapM id_of_decode hread

theorem ids_sorted (h : ev.listed st = some sources) :
    sources.Pairwise (fun s s' => s.id < s'.id) := by
  have hrows : ((st.sources.rows.filter (·.2.enabled)).map Prod.fst).Pairwise (· < ·) :=
    List.pairwise_map.mpr (st.sources.ids_lt_of_sorted.sublist List.filter_sublist)
  rw [← ids_of_listed h, List.pairwise_map] at hrows
  exact hrows

theorem ids_nodup (h : ev.listed st = some sources) : (sources.map (·.id)).Nodup :=
  List.pairwise_map.mpr ((ids_sorted h).imp (fun hlt => Nat.ne_of_lt hlt))

end Listed

/-- A map is the union of what the sources contribute, with the lowest source of each
name. -/
structure IsUnion (live : HashMap Name Int) (sources : List Storage.Blocklist)
    (contribution : Storage.Blocklist → List Name) : Prop where
  mem_iff : ∀ n, n ∈ live ↔ ∃ s ∈ sources, n ∈ contribution s
  owner_iff : ∀ n i, live.lookup n = some i ↔
    (∃ s ∈ sources, (s.id : Int) = i ∧ n ∈ contribution s) ∧
      ∀ s ∈ sources, n ∈ contribution s → i ≤ s.id

section Union

variable {env : Nat → SourceEvents} {st : Store} {sources : List Storage.Blocklist}

theorem mem_groups {g : Int × List Name} : g ∈ groups env st sources ↔
    ∃ s ∈ sources, usable (env s.id) st s = some g.2 ∧ (s.id : Int) = g.1 := by
  rw [groups, List.mem_filterMap]
  constructor
  · rintro ⟨s, hs, h⟩
    obtain ⟨names, hnames, rfl⟩ := Option.map_eq_some_iff.mp h
    exact ⟨s, hs, hnames, rfl⟩
  · rintro ⟨s, hs, hnames, hid⟩
    exact ⟨s, hs, by rw [hnames, Option.map_some, hid]⟩

theorem groups_sorted (h : sources.Pairwise (fun s s' => s.id < s'.id)) :
    (groups env st sources).Pairwise (fun g g' => g.1 < g'.1) := by
  rw [groups, List.pairwise_filterMap]
  refine h.imp ?_
  intro s s' hlt g hg g' hg'
  obtain ⟨_, _, rfl⟩ := Option.map_eq_some_iff.mp hg
  obtain ⟨_, _, rfl⟩ := Option.map_eq_some_iff.mp hg'
  exact Int.ofNat_lt.mpr hlt

theorem mem_usable {ev : SourceEvents} {source : Storage.Blocklist} {n : Name} :
    n ∈ (usable ev st source).getD [] ↔ ∃ names, usable ev st source = some names ∧ n ∈ names := by
  cases usable ev st source with
  | none => simp
  | some names => simp

/-- The merged contributions are their union. -/
theorem isUnion_merge (h : sources.Pairwise (fun s s' => s.id < s'.id)) :
    IsUnion (FirstWriter.merge ∅ (groups env st sources)) sources
      (fun s => (usable (env s.id) st s).getD []) := by
  constructor
  · intro n
    rw [FirstWriter.mem_merge]
    constructor
    · rintro ⟨g, hg, hn⟩
      obtain ⟨s, hs, hnames, _⟩ := mem_groups.mp hg
      exact ⟨s, hs, mem_usable.mpr ⟨g.2, hnames, hn⟩⟩
    · rintro ⟨s, hs, hn⟩
      obtain ⟨names, hnames, hn⟩ := mem_usable.mp hn
      exact ⟨(s.id, names), mem_groups.mpr ⟨s, hs, hnames, rfl⟩, hn⟩
  · intro n i
    -- The ids grow along the listing, so the first writer is the lowest source.
    rw [FirstWriter.lookup_merge_eq_some_iff (groups_sorted h)]
    constructor
    · rintro ⟨⟨g, hg, rfl, hn⟩, hleast⟩
      obtain ⟨s, hs, hnames, hid⟩ := mem_groups.mp hg
      refine ⟨⟨s, hs, hid, mem_usable.mpr ⟨g.2, hnames, hn⟩⟩, ?_⟩
      intro s' hs' hn'
      obtain ⟨names, hnames', hn'⟩ := mem_usable.mp hn'
      exact hleast (s'.id, names) (mem_groups.mpr ⟨s', hs', hnames', rfl⟩) hn'
    · rintro ⟨⟨s, hs, rfl, hn⟩, hleast⟩
      obtain ⟨names, hnames, hn⟩ := mem_usable.mp hn
      refine ⟨⟨(s.id, names), mem_groups.mpr ⟨s, hs, hnames, rfl⟩, rfl, hn⟩, ?_⟩
      intro g hg hn'
      obtain ⟨s', hs', hnames', hid'⟩ := mem_groups.mp hg
      rw [← hid']
      exact hleast s' hs' (mem_usable.mpr ⟨g.2, hnames', hn'⟩)

end Union

/-! ### The result of a cycle -/

section Result

variable {ev : CycleEvents} {s : Scheduler} {sources : List Storage.Blocklist}

/-- A cycle in terms of its loop. -/
theorem refreshOnce_eq (h : ev.listed s.store = some sources) :
    (s.refreshOnce ev).1.store =
        storeAfterAll ev.source sources s.store ∧
      ((∃ src ∈ sources, usable (ev.source src.id) s.store src = none) →
        (s.refreshOnce ev).1.live = s.live) ∧
      ((∀ src ∈ sources, usable (ev.source src.id) s.store src ≠ none) →
        (s.refreshOnce ev).1.live = FirstWriter.merge ∅ (groups ev.source s.store sources)) := by
  obtain ⟨hstore, hmerged, hcomplete⟩ := refreshSources_eq ev.source sources
    ⟨s.store, .new, ⟨0, 0, 0, 0⟩⟩ true (ids_nodup h)
  rw [Scheduler.refreshOnce, h]
  dsimp only
  refine ⟨hstore, ?_, ?_⟩
  · rintro ⟨src, hsrc, hnone⟩
    rw [if_neg]
    intro htrue
    exact (hcomplete.mp htrue).2 src hsrc hnone
  · intro hall
    rw [if_pos (hcomplete.mpr ⟨rfl, hall⟩)]
    exact hmerged

/-- The loop of the offline load takes the cached bodies that can be read. -/
theorem loadSources_merged (env : Nat → SourceEvents) (st : Store) :
    ∀ (sources : List Storage.Blocklist) (a : Aggregator),
    (Scheduler.loadSources (fun id => (env id).loadFails) st sources a).merged =
      FirstWriter.merge a.merged (sources.filterMap (fun src =>
        (cachedNames (env src.id) st src).map (fun names => ((src.id : Int), names)))) := by
  intro sources
  induction sources with
  | nil =>
    intro a
    rfl
  | cons source sources ih =>
    intro a
    -- One round: a body that cannot be read adds nothing.
    have hbody : Scheduler.loadSources (fun id => (env id).loadFails) st [source] a =
        a.addUsable source (cachedNames (env source.id) st source) := by
      simp only [Scheduler.loadSources, List.foldl_cons, List.foldl_nil, cachedNames]
      split_ifs
      · rfl
      · cases st.loadCache source.id with
        | none => rfl
        | some cached => rfl
    have hcons : Scheduler.loadSources (fun id => (env id).loadFails) st (source :: sources) a =
        Scheduler.loadSources (fun id => (env id).loadFails) st sources
          (Scheduler.loadSources (fun id => (env id).loadFails) st [source] a) := by
      simp only [Scheduler.loadSources, List.foldl_cons, List.foldl_nil]
    rw [hcons, hbody, ih, merged_addUsable, ← FirstWriter.merge_append, List.filterMap_cons]
    cases cachedNames (env source.id) st source with
    | none => rfl
    | some names => rfl

/-- Without new bodies a cycle is the offline load, when all cached bodies can be read. -/
theorem live_eq_loadFromCache (h : ev.listed s.store = some sources)
    (hsame : ∀ src ∈ sources, usable (ev.source src.id) s.store src =
      cachedNames (ev.source src.id) s.store src)
    (hall : ∀ src ∈ sources, cachedNames (ev.source src.id) s.store src ≠ none) :
    (s.refreshOnce ev).1.live = (s.loadFromCache ev).live := by
  have husable : ∀ src ∈ sources, usable (ev.source src.id) s.store src ≠ none :=
    fun src hsrc => hsame src hsrc ▸ hall src hsrc
  rw [(refreshOnce_eq h).2.2 husable, Scheduler.loadFromCache, h]
  dsimp only
  rw [loadSources_merged, groups]
  exact congrArg (FirstWriter.merge ∅)
    (List.filterMap_congr (fun src hsrc => by rw [hsame src hsrc]))

/-- A fetch that got a body with names. -/
def Renews (ev : SourceEvents) (source : Storage.Blocklist) : Prop :=
  ∃ body validators, ev.fetch = .ok (.modified body validators) ∧ namesOf source.format body ≠ []

instance Renews.decidable (ev : SourceEvents) (source : Storage.Blocklist) :
    Decidable (Renews ev source) :=
  match hfetch : ev.fetch with
  | .ok (.modified body validators) =>
    decidable_of_iff (namesOf source.format body ≠ []) (by
      constructor
      · intro hnames
        exact ⟨body, validators, hfetch, hnames⟩
      · rintro ⟨body', validators', hfetch', hnames⟩
        rw [hfetch] at hfetch'
        cases hfetch'
        exact hnames)
  | .ok .notModified => isFalse (by
      rintro ⟨_, _, hfetch', _⟩
      rw [hfetch] at hfetch'
      cases hfetch')
  | .error _ => isFalse (by
      rintro ⟨_, _, hfetch', _⟩
      rw [hfetch] at hfetch'
      cases hfetch')

theorem usable_of_not_renews {ev : SourceEvents} {st : Store} {source : Storage.Blocklist}
    (h : ¬ Renews ev source) : usable ev st source = cachedNames ev st source := by
  rw [usable]
  split
  · rename_i body validators hfetch
    rw [if_pos]
    by_contra hnames
    exact h ⟨body, validators, hfetch, hnames⟩
  · rfl

theorem usable_of_renews {ev : SourceEvents} {st : Store} {source : Storage.Blocklist}
    (h : Renews ev source) : usable ev st source ≠ none := by
  obtain ⟨body, validators, hfetch, hnames⟩ := h
  rw [usable, hfetch]
  dsimp only
  rw [if_neg hnames]
  simp

theorem storeAfter_of_not_renews {ev : SourceEvents} {st : Store} {source : Storage.Blocklist}
    (h : ¬ Renews ev source) : storeAfter ev source st = st := by
  rcases storeAfter_cases ev source st with heq | ⟨body, validators, hfetch, hnames, _⟩
  · exact heq
  · exact absurd ⟨body, validators, hfetch, hnames⟩ h

/-- **The result of a cycle.**  When some source has neither a new body with names nor
a readable cached body, the live map stays; else it is exactly the union of what the
sources contribute, each name under the lowest source that has it.  A source that got
no new names keeps its body and its row, and where no source got any, the map is the
one of the offline load. -/
theorem refresh_result (h : ev.listed s.store = some sources) :
    ((∃ src ∈ sources, ¬ Renews (ev.source src.id) src ∧
        cachedNames (ev.source src.id) s.store src = none) →
      (s.refreshOnce ev).1.live = s.live) ∧
    ((∀ src ∈ sources, Renews (ev.source src.id) src ∨
        cachedNames (ev.source src.id) s.store src ≠ none) →
      IsUnion (s.refreshOnce ev).1.live sources
        (fun src => (usable (ev.source src.id) s.store src).getD [])) ∧
    (∀ src ∈ sources, ¬ Renews (ev.source src.id) src →
      s.store.SameAt src.id (s.refreshOnce ev).1.store) ∧
    ((∀ src ∈ sources, ¬ Renews (ev.source src.id) src ∧
        cachedNames (ev.source src.id) s.store src ≠ none) →
      (s.refreshOnce ev).1.live = (s.loadFromCache ev).live) := by
  obtain ⟨hstore, hkept, hlive⟩ := refreshOnce_eq h
  refine ⟨?_, ?_, ?_, ?_⟩
  · rintro ⟨src, hsrc, hnot, hnone⟩
    exact hkept ⟨src, hsrc, (usable_of_not_renews hnot).trans hnone⟩
  · intro hall
    have husable : ∀ src ∈ sources, usable (ev.source src.id) s.store src ≠ none := by
      intro src hsrc
      rcases hall src hsrc with hrenews | hcached
      · exact usable_of_renews hrenews
      · by_cases hrenews : Renews (ev.source src.id) src
        · exact usable_of_renews hrenews
        · exact usable_of_not_renews hrenews ▸ hcached
    rw [hlive husable]
    exact isUnion_merge (ids_sorted h)
  · intro src hsrc hnot
    -- The writes of the other sources leave this one alone.
    rw [hstore]
    have halone := storeAfterAll_of_mem ev.source s.store (ids_nodup h) hsrc
    rwa [storeAfter_of_not_renews hnot] at halone
  · intro hall
    exact live_eq_loadFromCache h (fun src hsrc => usable_of_not_renews (hall src hsrc).1)
      (fun src hsrc => (hall src hsrc).2)

end Result

/-- A store with two sources, of which the second has a cached body. -/
def twoSources : Store where
  sources :=
    ⟨[(1, ⟨"https://a.example/list", "domain-list", true, 0, none, none, none⟩),
      (2, ⟨"https://b.example/hosts", "hosts", true, 1, some 0, some "v1", none⟩)],
      3, by simp, by simp, by decide, by decide⟩
  cache := fun id => if id = 2 then some ⟨"0.0.0.0 ads.example\n".toUTF8.toList, 0⟩ else none
  foreign_key := by
    intro id h
    by_cases hid : id = 2
    · simp [hid]
    · exact absurd (if_neg hid) h

/-- A cycle in which the first source sends a list and the second one nothing new. -/
def freshAndUnchanged : CycleEvents where
  listFails := false
  source := fun id =>
    { fetch := if id = 1 then .ok (.modified "Ads.example\nspam.example\n".toUTF8.toList ⟨some "v2", none⟩)
        else .ok .notModified
      savedAt := 1, updatedAt := 1, loadFails := false, saveFails := false, updateFails := false }

theorem refresh_result_two_sources : ∃ sources, freshAndUnchanged.listed twoSources = some sources ∧
    sources.map (·.id) = [1, 2] ∧
    IsUnion ((⟨twoSources, ∅⟩ : Scheduler).refreshOnce freshAndUnchanged).1.live sources
      (fun src => (usable (freshAndUnchanged.source src.id) twoSources src).getD []) := by
  have hlisted : freshAndUnchanged.listed twoSources = some
      [⟨1, "https://a.example/list", .domainList, true, 0, none, none, none⟩,
        ⟨2, "https://b.example/hosts", .hosts, true, 1, some 0, some "v1", none⟩] := by
    decide
  refine ⟨_, hlisted, rfl, (refresh_result (s := ⟨twoSources, ∅⟩) hlisted).2.1 ?_⟩
  intro src hsrc
  rcases List.mem_cons.mp hsrc with rfl | hsrc
  · exact .inl ⟨_, _, rfl, by decide +kernel⟩
  · rw [List.mem_singleton.mp hsrc]
    exact .inr (by decide)

end Blocklist

/-
Edits of the blocklist sources and the refresh loop (`BlocklistScheduler::run` and
`RefreshTrigger` of `blocklist/scheduler.rs`, with the handlers of `web/blocklists.rs`).

A request commits its edit and then triggers a refresh, which sets the one permit of the
`Notify`.  The loop waits for the timer or the permit, and then lists the enabled sources,
works through them and installs the result.  Edits may land between any two of these
steps; the writes of a source are steps of their own.

* `run_heldWrites` — the steps of a source are `refresh_source`;
* `inv_step` — an edit that no listing has seen has a refresh ahead of it;
* `no_lost_refresh` — so at rest the live map is that of the sources that are enabled.
-/
import Sagittarius.Transition
import Sagittarius.AdminEdits
import Sagittarius.BlocklistRefresh

open Codec Storage Transition

namespace Blocklist

/-! ### Edits -/

namespace Store

/-- `insert`. -/
def insert (st : Store) (b : NewBlocklist) : Except Storage.Error Store :=
  match h : Blocklists.insert st.sources b with
  | .error e => .error e
  | .ok sources => .ok {
      sources
      cache := st.cache
      foreign_key := by
        intro id hid
        rw [Sql.Table.rows_of_insert (ofSql_ok h), List.map_append]
        exact List.mem_append_left _ (st.foreign_key id hid) }

/-- `remove`; the cached body goes with its source. -/
def remove (st : Store) (id : Nat) : Store where
  sources := Blocklists.remove st.sources id
  cache := Function.update st.cache id none
  foreign_key := by
    intro i hi
    by_cases heq : i = id
    · rw [heq, Function.update_self] at hi
      exact absurd rfl hi
    · rw [Function.update_of_ne heq] at hi
      obtain ⟨r, hr, rfl⟩ := List.mem_map.mp (st.foreign_key i hi)
      exact List.mem_map.mpr ⟨r, Sql.Table.mem_deleteWhere.mpr ⟨hr, by simpa using heq⟩, rfl⟩

/-- `set_enabled`. -/
def setEnabled (st : Store) (id : Nat) (enabled : Bool) : Store where
  sources := Blocklists.setEnabled st.sources id enabled
  cache := st.cache
  foreign_key := by
    rw [Blocklists.setEnabled, Sql.Table.ids_modifyWhere]
    exact st.foreign_key

end Store

/-- The edits of `blocklist_add`, `blocklist_remove` and `blocklist_toggle`. -/
inductive Edit where
  | add (url format : String)
  | remove (id : Nat)
  | toggle (id : Nat) (enabled : Bool)

/-- The commit of an edit. -/
def Edit.commit (st : Store) : Edit → Except Web.WebError Store
  | .add url format =>
    match Token.fromStr format with
    | .error _ => .error (.badRequest "Format must be hosts or domain-list.")
    | .ok format =>
      let url := Text.trim url
      if "http://".toList.isPrefixOf url.toList || "https://".toList.isPrefixOf url.toList then
        match st.insert ⟨url, format, true⟩ with
        | .ok st' => .ok st'
        | .error (.sqlx _) => .error (.badRequest "That URL is already subscribed.")
        | .error e => .error (.storage e)
      else .error (.badRequest "URL must start with http:// or https://.")
  | .remove id => .ok (st.remove id)
  | .toggle id enabled => .ok (st.setEnabled id enabled)

/-! ### The loop -/

/-- A write of `handle_modified` that is still ahead. -/
inductive Write where
  | body (id : Nat) (now : Int) (content : List UInt8)
  | metadata (id : Nat) (m : RefreshMetadata)

/-- A write that goes through; the body of a source that is gone is not saved. -/
def Write.run (st : Store) : Write → Store
  | .body id now content => (st.saveCache now id content).getD st
  | .metadata id m => st.updateRefreshMetadata id m

/-- The writes of a source in a cycle. -/
def heldWrites (ev : SourceEvents) (source : Storage.Blocklist) : List Write :=
  match ev.fetch with
  | .ok (.modified body validators) =>
    if namesOf source.format body = [] then []
    else
      [.body source.id ev.savedAt body,
        .metadata source.id
          ⟨UInt64.ofNat (namesOf source.format body).length, ev.updatedAt, validators⟩]
  | _ => []

/-- A cycle that has listed its sources.  `seen` is the number of edits before the
listing, `answered` the sources that were asked with what they answered. -/
structure Working where
  seen : Nat
  answered : List (Storage.Blocklist × Except FetchError FetchOutcome)
  todo : List Storage.Blocklist
  writes : List Write
  aggregator : Aggregator
  summary : RefreshSummary
  complete : Bool

/-- Where the loop stands. -/
inductive Phase where
  | starting
  | working (w : Working)
  | idle
  | stopped

/-- The loop waits. -/
def Phase.isIdle : Phase → Bool
  | .idle => true
  | _ => false

theorem Phase.isIdle_iff {p : Phase} : p.isIdle = true ↔ p = .idle := by
  cases p <;> simp [isIdle]

/-- A cycle that was completed. -/
structure Completed where
  seen : Nat
  answered : List (Storage.Blocklist × Except FetchError FetchOutcome)

/-- The tables and the live map, the permit, the loop, the requests that have committed
and not yet triggered, the number of edits so far and the last completed cycle. -/
structure System where
  scheduler : Scheduler
  permit : Bool
  phase : Phase
  requests : Nat
  edits : Nat
  last : Option Completed

/-- What happens next. -/
inductive Event where
  | commit (e : Edit)
  | trigger
  | refreshNow
  | timer
  | notified
  | shutdown
  | list (fails : Bool)
  | fetch (ev : SourceEvents)
  | write (fails : Bool)
  | install

/-- The next source of a cycle, without its writes. -/
def Working.ask (w : Working) (ev : SourceEvents) (source : Storage.Blocklist)
    (rest : List Storage.Blocklist) (st : Store) : Working :=
  let (c, result) := refreshSource ev source ⟨st, w.aggregator, w.summary⟩
  { w with
    answered := w.answered ++ [(source, ev.fetch)]
    todo := rest
    writes := heldWrites ev source
    aggregator := c.aggregator
    summary := c.summary
    complete := if result = .incomplete then false else w.complete }

namespace System

/-- The loop lists the enabled sources; when it cannot, it waits again. -/
def startCycle (s : System) (fails : Bool) : System :=
  match (if fails then none else s.scheduler.store.listEnabled.toOption) with
  | none => { s with phase := .idle }
  | some sources =>
    { s with phase := .working ⟨s.edits, [], sources, [], .new, ⟨0, 0, 0, 0⟩, true⟩ }

/-- The loop installs the result. -/
def endCycle (s : System) (w : Working) : System :=
  { s with
    scheduler.live := if w.complete then w.aggregator.merged else s.scheduler.live
    phase := .idle
    last := some ⟨w.seen, w.answered⟩ }

/-- One step of a request or of the loop. -/
def step (s : System) : Event → Option System
  | .commit e =>
    match e.commit s.scheduler.store with
    | .ok store =>
      some { s with scheduler.store := store, requests := s.requests + 1, edits := s.edits + 1 }
    | .error _ => some s
  | .trigger =>
    if s.requests = 0 then none else some { s with requests := s.requests - 1, permit := true }
  | .refreshNow => some { s with permit := true }
  | .timer =>
    match s.phase with
    | .idle => some { s with phase := .starting }
    | _ => none
  | .notified =>
    match s.phase with
    | .idle => if s.permit then some { s with phase := .starting, permit := false } else none
    | _ => none
  | .shutdown =>
    match s.phase with
    | .idle => some { s with phase := .stopped }
    | _ => none
  | .list fails =>
    match s.phase with
    | .starting => some (s.startCycle fails)
    | _ => none
  | .fetch ev =>
    match s.phase with
    | .working w =>
      match w.writes, w.todo with
      | [], source :: rest =>
        some { s with phase := .working (w.ask ev source rest s.scheduler.store) }
      | _, _ => none
    | _ => none
  | .write fails =>
    match s.phase with
    | .working w =>
      match w.writes with
      | write :: writes =>
        some { s with
          scheduler.store := if fails then s.scheduler.store else write.run s.scheduler.store
          phase := .working { w with writes } }
      | [] => none
    | _ => none
  | .install =>
    match s.phase with
    | .working w =>
      match w.writes, w.todo with
      | [], [] => some (s.endCycle w)
      | _, _ => none
    | _ => none

end System

/-! ### What the steps do -/

/-- The steps of a source, its writes included, are `refresh_source`. -/
theorem run_heldWrites (ev : SourceEvents) (source : Storage.Blocklist) (st : Store) :
    ((heldWrites ev source).zip [ev.saveFails, ev.updateFails]).foldl
      (fun st w => if w.2 then st else w.1.run st) st = storeAfter ev source st := by
  rw [heldWrites, storeAfter]
  cases ev.fetch with
  | error e => rfl
  | ok outcome =>
    cases outcome with
    | notModified => rfl
    | modified body validators =>
      dsimp only
      split_ifs with hnames
      · rfl
      · rfl

/-- The enabled sources of a store. -/
def enabledRows (st : Store) : List (Nat × String × String) :=
  (st.sources.rows.filter (·.2.enabled)).map (fun r => (r.1, r.2.url, r.2.format))

/-- A listed source, as it stands in its row. -/
def listedRow (source : Storage.Blocklist) : Nat × String × String :=
  (source.id, source.url, source.format.asStr)

theorem listedRow_of_decode (r : Nat × BlocklistRow) (b : Storage.Blocklist)
    (h : Blocklists.decode r = .ok b) : listedRow b = (r.1, r.2.url, r.2.format) := by
  rw [Blocklists.decode] at h
  split at h
  · cases h
  · rename_i format hformat
    split_ifs at h
    cases h
    exact congrArg (fun f => (r.1, r.2.url, f)) (Token.fromStr_ok_iff.mp hformat)

theorem enabledRows_of_list {st : Store} {sources : List Storage.Blocklist}
    (h : st.listEnabled = .ok sources) : sources.map listedRow = enabledRows st :=
  map_of_mapM listedRow_of_decode h

/-- The writes of a cycle leave the sources enabled as they are. -/
theorem enabledRows_write (st : Store) (w : Write) : enabledRows (w.run st) = enabledRows st := by
  cases w with
  | body id now content =>
    rw [Write.run, Store.saveCache]
    split_ifs <;> rfl
  | metadata id m =>
    have hrow : ∀ r, (fun r : Nat × BlocklistRow => (r.1, r.2.url, r.2.format))
        (Sql.Table.modifyRow (fun r => r.1 = id) m.write r) = (r.1, r.2.url, r.2.format) ∧
          (Sql.Table.modifyRow (fun r => r.1 = id) m.write r).2.enabled = r.2.enabled := by
      intro r
      rw [Sql.Table.modifyRow]
      split_ifs <;> exact ⟨rfl, rfl⟩
    show ((st.sources.rows.map (Sql.Table.modifyRow (fun r => r.1 = id) m.write)).filter
      (·.2.enabled)).map _ = enabledRows st
    rw [enabledRows, List.filter_map, List.map_map]
    have hfilter : ((fun r : Nat × BlocklistRow => r.2.enabled) ∘
        Sql.Table.modifyRow (fun r => r.1 = id) m.write) = (fun r => r.2.enabled) := by
      funext r
      exact (hrow r).2
    rw [hfilter]
    exact List.map_congr_left (fun r _ => (hrow r).1)

/-- The names a source has answered with. -/
def answerNames (a : Storage.Blocklist × Except FetchError FetchOutcome) : List Name :=
  match a.2 with
  | .ok (.modified body _) => namesOf a.1.format body
  | _ => []

/-- The names of all answers, each under its source. -/
def answerGroups (answered : List (Storage.Blocklist × Except FetchError FetchOutcome)) :
    List (Int × List Name) :=
  answered.map (fun a => ((a.1.id : Int), answerNames a))

/-- A source that answers with names contributes them. -/
theorem ask_of_renews {ev : SourceEvents} {source : Storage.Blocklist} (w : Working)
    (rest : List Storage.Blocklist) (st : Store) (h : Renews ev source) :
    (w.ask ev source rest st).aggregator.merged =
        FirstWriter.merge w.aggregator.merged [((source.id : Int), answerNames (source, ev.fetch))] ∧
      (w.ask ev source rest st).complete = w.complete := by
  obtain ⟨_, haggregator, hresult⟩ := refreshSource_eq ev source ⟨st, w.aggregator, w.summary⟩
  have husable : usable ev st source = some (answerNames (source, ev.fetch)) := by
    obtain ⟨body, validators, hfetch, hnames⟩ := h
    rw [usable, hfetch]
    exact if_neg hnames
  constructor
  · show (refreshSource ev source ⟨st, w.aggregator, w.summary⟩).1.aggregator.merged = _
    rw [haggregator, merged_addUsable, husable]
    rfl
  · refine if_neg (fun hincomplete => ?_)
    rw [hresult.mp hincomplete] at husable
    cases husable

/-! ### Runs -/

/-- What is assumed of a step: the sources can be listed, and a source that is asked
answers with names. -/
def Answered (s : System) : Event → Prop
  | .list fails => fails = false ∧ s.scheduler.store.listEnabled.isOk = true
  | .fetch ev =>
    match s.phase with
    | .working w => ∀ source ∈ w.todo.head?, Renews ev source
    | _ => True
  | _ => True

instance Answered.decidable (s : System) : ∀ e, Decidable (Answered s e)
  | .list _ => inferInstanceAs (Decidable (_ ∧ _))
  | .fetch ev =>
    match hphase : s.phase with
    | .working w => decidable_of_iff (∀ source ∈ w.todo.head?, Renews ev source) (by
        rw [Answered, hphase])
    | .starting => isTrue (by
        rw [Answered, hphase]
        trivial)
    | .idle => isTrue (by
        rw [Answered, hphase]
        trivial)
    | .stopped => isTrue (by
        rw [Answered, hphase]
        trivial)
  | .commit _ => instDecidableTrue
  | .trigger => instDecidableTrue
  | .refreshNow => instDecidableTrue
  | .timer => instDecidableTrue
  | .notified => instDecidableTrue
  | .shutdown => instDecidableTrue
  | .write _ => instDecidableTrue
  | .install => instDecidableTrue

/-- A cycle so far: all sources asked have contributed, in the order of their ids, and
they are the enabled ones unless an edit came in between. -/
structure WorkingInv (s : System) (w : Working) : Prop where
  seen_le : w.seen ≤ s.edits
  merged_eq : w.aggregator.merged = FirstWriter.merge ∅ (answerGroups w.answered)
  complete_eq : w.complete = true
  sorted : (w.answered.map Prod.fst ++ w.todo).Pairwise (fun a b => a.id < b.id)
  current : w.seen = s.edits →
    (w.answered.map Prod.fst ++ w.todo).map listedRow = enabledRows s.scheduler.store

/-- The last cycle, when none is running. -/
structure RestingInv (s : System) (c : Completed) : Prop where
  seen_le : c.seen ≤ s.edits
  live_eq : s.scheduler.live = FirstWriter.merge ∅ (answerGroups c.answered)
  sorted : (c.answered.map Prod.fst).Pairwise (fun a b => a.id < b.id)
  current : c.seen = s.edits →
    (c.answered.map Prod.fst).map listedRow = enabledRows s.scheduler.store

/-- No refresh is ahead of the loop: no permit, and no request that will set it. -/
def System.Unasked (s : System) : Prop := s.permit = false ∧ s.requests = 0

/-- At rest, an edit that the last cycle has not seen has a refresh ahead of it. -/
def RestInv (s : System) : Prop :=
  ∃ c, s.last = some c ∧ RestingInv s c ∧ (s.Unasked → c.seen = s.edits)

/-- An edit that the last listing has not seen has a refresh ahead of it. -/
def Inv (s : System) : Prop :=
  match s.phase with
  | .starting => True
  | .working w => WorkingInv s w ∧ (s.Unasked → w.seen = s.edits)
  | .idle => RestInv s
  | .stopped => RestInv s

section Step

variable {s s' : System} {w : Working}

theorem inv_working (hphase : s.phase = .working w) :
    Inv s ↔ WorkingInv s w ∧ (s.Unasked → w.seen = s.edits) := by
  rw [Inv, hphase]

theorem inv_idle (hphase : s.phase = .idle) : Inv s ↔ RestInv s := by
  rw [Inv, hphase]

/-- A trigger only asks for more. -/
theorem Inv.asked (h : Inv s) (requests : Nat) : Inv { s with permit := true, requests } := by
  rw [Inv] at h ⊢
  dsimp only
  split
  · trivial
  · rename_i w hphase
    rw [hphase] at h
    obtain ⟨hw, _⟩ := h
    exact ⟨⟨hw.seen_le, hw.merged_eq, hw.complete_eq, hw.sorted, hw.current⟩, fun hno => nomatch hno.1⟩
  all_goals
    rename_i hphase
    rw [hphase] at h
    obtain ⟨c, hlast, hc, _⟩ := h
    exact ⟨c, hlast, ⟨hc.seen_le, hc.live_eq, hc.sorted, hc.current⟩, fun hno => nomatch hno.1⟩

/-- A commit is not seen by the listings before it, and its request asks for one. -/
theorem RestInv.commit (h : RestInv s) (store : Store) :
    RestInv { s with
      scheduler.store := store, requests := s.requests + 1, edits := s.edits + 1 } := by
  obtain ⟨c, hlast, hc, _⟩ := h
  have hle := hc.seen_le
  refine ⟨c, hlast, ⟨Nat.le_succ_of_le hle, hc.live_eq, hc.sorted, fun heq => ?_⟩, fun hno => ?_⟩
  · dsimp only at heq
    omega
  · exact absurd hno.2 (Nat.succ_ne_zero _)

theorem WorkingInv.commit (h : WorkingInv s w) (store : Store) :
    WorkingInv { s with
      scheduler.store := store, requests := s.requests + 1, edits := s.edits + 1 } w := by
  have hle := h.seen_le
  refine ⟨Nat.le_succ_of_le hle, h.merged_eq, h.complete_eq, h.sorted, fun heq => ?_⟩
  dsimp only at heq
  omega

theorem Inv.commit (h : Inv s) (store : Store) :
    Inv { s with
      scheduler.store := store, requests := s.requests + 1, edits := s.edits + 1 } := by
  rw [Inv] at h ⊢
  dsimp only
  split
  · trivial
  · rename_i w hphase
    rw [hphase] at h
    exact ⟨h.1.commit store, fun hno => absurd hno.2 (Nat.succ_ne_zero _)⟩
  all_goals
    rename_i hphase
    rw [hphase] at h
    exact h.commit store

/-- A listing sees all edits so far. -/
theorem inv_startCycle {sources : List Storage.Blocklist}
    (hlist : s.scheduler.store.listEnabled = .ok sources) : Inv (s.startCycle false) := by
  have hlisted : (⟨false, fun _ => ⟨.error .request, 0, 0, false, false, false⟩⟩ : CycleEvents).listed
      s.scheduler.store = some sources := by
    rw [CycleEvents.listed, hlist]
    rfl
  have hstart : s.startCycle false =
      { s with phase := .working ⟨s.edits, [], sources, [], .new, ⟨0, 0, 0, 0⟩, true⟩ } := by
    rw [System.startCycle, hlist]
    rfl
  rw [hstart, inv_working rfl]
  exact ⟨⟨le_refl _, rfl, rfl, ids_sorted hlisted, fun _ => enabledRows_of_list hlist⟩, fun _ => rfl⟩

/-- A source that answers with names is added to what the cycle has. -/
theorem WorkingInv.ask {ev : SourceEvents} {source : Storage.Blocklist}
    {rest : List Storage.Blocklist} (h : WorkingInv s w) (htodo : w.todo = source :: rest)
    (hrenews : Renews ev source) :
    WorkingInv { s with phase := .working (w.ask ev source rest s.scheduler.store) }
      (w.ask ev source rest s.scheduler.store) := by
  obtain ⟨hmerged, hcomplete⟩ := ask_of_renews w rest s.scheduler.store hrenews
  have hlist : (w.ask ev source rest s.scheduler.store).answered.map Prod.fst ++ rest =
      w.answered.map Prod.fst ++ w.todo := by
    show (w.answered ++ [(source, ev.fetch)]).map Prod.fst ++ rest = _
    rw [htodo, List.map_append, List.append_assoc]
    rfl
  refine ⟨h.seen_le, ?_, hcomplete.trans h.complete_eq, ?_, ?_⟩
  · rw [hmerged, h.merged_eq, ← FirstWriter.merge_append]
    show _ = FirstWriter.merge ∅ (answerGroups (w.answered ++ [(source, ev.fetch)]))
    rw [answerGroups, answerGroups, List.map_append]
    rfl
  · exact (congrArg _ hlist).mpr h.sorted
  · intro heq
    exact (congrArg (List.map listedRow) hlist).trans (h.current heq)

/-- A write of the cycle leaves the sources as they are. -/
theorem WorkingInv.write (h : WorkingInv s w) (write : Write) (fails : Bool) (writes : List Write) :
    WorkingInv { s with
      scheduler.store := if fails then s.scheduler.store else write.run s.scheduler.store
      phase := .working { w with writes } } { w with writes } := by
  refine ⟨h.seen_le, h.merged_eq, h.complete_eq, h.sorted, ?_⟩
  intro heq
  refine (h.current heq).trans ?_
  cases fails with
  | true => rfl
  | false => exact (enabledRows_write s.scheduler.store write).symm

/-- The end of a cycle. -/
theorem restingInv_endCycle (h : WorkingInv s w) (htodo : w.todo = []) :
    RestingInv (s.endCycle w) ⟨w.seen, w.answered⟩ := by
  have hlist : w.answered.map Prod.fst ++ w.todo = w.answered.map Prod.fst := by
    rw [htodo, List.append_nil]
  refine ⟨h.seen_le, ?_, hlist ▸ h.sorted, fun heq => hlist ▸ h.current heq⟩
  show (if w.complete then w.aggregator.merged else _) = _
  rw [if_pos h.complete_eq, h.merged_eq]

/-- A step keeps the invariant. -/
theorem inv_step {e : Event} (h : Inv s) (hgood : Answered s e) (hstep : s.step e = some s') :
    Inv s' := by
  cases e with
  | commit e =>
    rw [System.step] at hstep
    split at hstep
    · cases hstep
      exact h.commit _
    · cases hstep
      exact h
  | trigger =>
    rw [System.step] at hstep
    split_ifs at hstep
    cases hstep
    exact h.asked _
  | refreshNow =>
    cases hstep
    exact h.asked s.requests
  -- Asleep no longer: the cycle it starts has listed nothing yet.
  | timer =>
    rw [System.step] at hstep
    split at hstep
    · cases hstep
      trivial
    · cases hstep
  | notified =>
    rw [System.step] at hstep
    split at hstep
    · split_ifs at hstep
      cases hstep
      trivial
    · cases hstep
  | shutdown =>
    rw [System.step] at hstep
    split at hstep
    · rename_i hphase
      cases hstep
      -- The scheduler stops with the last cycle it has completed.
      obtain ⟨c, hlast, hc, hseen⟩ := (inv_idle hphase).mp h
      exact ⟨c, hlast, ⟨hc.seen_le, hc.live_eq, hc.sorted, hc.current⟩, hseen⟩
    · cases hstep
  | list fails =>
    -- The listing of an answered run succeeds.
    obtain ⟨rfl, hok⟩ := hgood
    cases hlist : s.scheduler.store.listEnabled with
    | error e =>
      rw [hlist] at hok
      cases hok
    | ok sources =>
      rw [System.step] at hstep
      split at hstep
      · cases hstep
        exact inv_startCycle hlist
      · cases hstep
  | fetch ev =>
    rw [System.step] at hstep
    split at hstep
    · rename_i w hphase
      split at hstep
      · rename_i source rest _ htodo
        cases hstep
        obtain ⟨hw, hseen⟩ := (inv_working hphase).mp h
        rw [Answered, hphase] at hgood
        -- The source asked is the next one to do.
        have hrenews : Renews ev source := hgood source (by rw [htodo]; rfl)
        exact ⟨hw.ask htodo hrenews, hseen⟩
      · cases hstep
    · cases hstep
  | write fails =>
    rw [System.step] at hstep
    split at hstep
    · rename_i w hphase
      split at hstep
      · rename_i write writes _
        cases hstep
        obtain ⟨hw, hseen⟩ := (inv_working hphase).mp h
        exact ⟨hw.write write fails writes, hseen⟩
      · cases hstep
    · cases hstep
  | install =>
    rw [System.step] at hstep
    split at hstep
    · rename_i w hphase
      split at hstep
      · rename_i htodo
        cases hstep
        obtain ⟨hw, hseen⟩ := (inv_working hphase).mp h
        exact ⟨_, rfl, restingInv_endCycle hw htodo, hseen⟩
      · cases hstep
    · cases hstep

/-- The live map is exactly what the sources that are enabled now have answered in the
last cycle, which has listed them after the last edit. -/
structure UpToDate (s : System) (c : Completed) : Prop where
  seen_eq : c.seen = s.edits
  sources_eq : (c.answered.map Prod.fst).map listedRow = enabledRows s.scheduler.store
  mem_iff : ∀ n, n ∈ s.scheduler.live ↔ ∃ a ∈ c.answered, n ∈ answerNames a
  owner_iff : ∀ n i, s.scheduler.live.lookup n = some i ↔
    (∃ a ∈ c.answered, (a.1.id : Int) = i ∧ n ∈ answerNames a) ∧
      ∀ a ∈ c.answered, n ∈ answerNames a → i ≤ a.1.id

theorem upToDate_of_resting {c : Completed} (h : RestingInv s c) (hseen : c.seen = s.edits) :
    UpToDate s c := by
  have hsorted : (answerGroups c.answered).Pairwise (fun g g' => g.1 < g'.1) := by
    rw [answerGroups, List.pairwise_map]
    exact (List.pairwise_map.mp h.sorted).imp (fun hlt => Int.ofNat_lt.mpr hlt)
  refine ⟨hseen, h.current hseen, ?_, ?_⟩
  · intro n
    rw [h.live_eq, FirstWriter.mem_merge, answerGroups]
    simp only [List.mem_map, exists_exists_and_eq_and]
  · intro n i
    rw [h.live_eq, FirstWriter.lookup_merge_eq_some_iff hsorted, answerGroups, List.forall_mem_map]
    simp only [List.mem_map, exists_exists_and_eq_and]

/-- **No lost refresh.**  In every run from a start of the loop, of any edits, triggers and
steps of the loop in any order, in which the sources can be listed and answer with names:
whenever the loop is at rest with no permit set and no request ahead of its trigger, the
last cycle has listed the sources after the last edit and the live map is exactly what the
sources that are enabled have answered. -/
theorem no_lost_refresh {s₀ : System} {es : List Event} (hstart : s₀.phase = .starting)
    (hgood : Along System.step Answered s₀ es) (hrun : run System.step s₀ es = some s)
    (hrest : s.phase = .idle ∨ s.phase = .stopped) (hpermit : s.permit = false)
    (hrequests : s.requests = 0) : ∃ c, s.last = some c ∧ UpToDate s c := by
  have hinv₀ : Inv s₀ := by
    rw [Inv, hstart]
    trivial
  have hinv : Inv s := run_invariant_along inv_step hinv₀ hgood hrun
  have hrestInv : RestInv s := by
    rw [Inv] at hinv
    rcases hrest with hphase | hphase
    · rwa [hphase] at hinv
    · rwa [hphase] at hinv
  obtain ⟨c, hlast, hc, hseen⟩ := hrestInv
  exact ⟨c, hlast, upToDate_of_resting hc (hseen ⟨hpermit, hrequests⟩)⟩

end Step

/-- An edit that lands while the first cycle is running, and the cycle it asks for. -/
def overtaken : List Event :=
  let answer : SourceEvents :=
    ⟨.ok (.modified "0.0.0.0 ads.example\n".toUTF8.toList ⟨none, none⟩), 1, 1, false, false, false⟩
  [.list false, .fetch (freshAndUnchanged.source 1), .commit (.remove 1), .write false, .trigger,
    .write false, .fetch answer, .write false, .write false, .install, .notified, .list false,
    .fetch answer, .write false, .write false, .install]

/-- The state of a system that was just started. -/
def justStarted : System := ⟨⟨twoSources, ∅⟩, false, .starting, 0, 0, none⟩

theorem no_lost_refresh_overtaken : ∃ s c, run System.step justStarted overtaken = some s ∧
    s.edits = 1 ∧ s.last = some c ∧ UpToDate s c := by
  have hgood : Along System.step Answered justStarted overtaken := by
    decide +kernel
  have hend : (run System.step justStarted overtaken).any (fun s =>
      s.phase.isIdle && !s.permit && s.requests == 0 && s.edits == 1) = true := by
    decide +kernel
  obtain ⟨s, hrun, hs⟩ := (Option.any_eq_true _ _).mp hend
  simp only [Bool.and_eq_true, Bool.not_eq_true', beq_iff_eq] at hs
  obtain ⟨⟨⟨hidle, hpermit⟩, hrequests⟩, hedits⟩ := hs
  obtain ⟨c, hc⟩ := no_lost_refresh rfl hgood hrun (.inl (Phase.isIdle_iff.mp hidle)) hpermit hrequests
  exact ⟨s, c, hrun, hedits, hc⟩

end Blocklist

/-
What becomes of a recorded query (`telemetry/event.rs`).

`record` moves the runtime figures and, when the query log is on, tries to put the event
into the channel of the writer; a full channel drops it.  The writer goes on as it does,
and what it hands over is inserted.

* `Accounted`, `accounted_step` — every recorded query is in the figures, and has one fate;
* `sink_accounting` — the rows of the log are those of the queries that were sent, in order;
* `figures_agree` — when nothing was held back, the log gives the same figures as the
  runtime counters.
-/
import Sagittarius.QueryLogStore
import Sagittarius.Stats
import Sagittarius.Transition

open Resolver Storage Storage.QueryLog

namespace Telemetry.Sink

/-- What became of an event at `enqueue_for_persistence`. -/
inductive Fate where
  | sent
  | dropped
  | disabled
  | closed
  deriving DecidableEq, Repr

/-- The sink, the writer behind its channel and the table.  `fates` is a record for the
proofs. -/
structure State where
  stats : Stats
  queryLogEnabled : Bool
  dropped : Nat
  writer : Telemetry.State
  table : QueryLogTable
  fates : List (QueryEvent × Fate)

inductive Event where
  | record (event : QueryEvent)
  | setEnabled (on : Bool)
  | writer (e : Telemetry.Event)

/-- `enqueue_for_persistence`.  The receiver is gone once the writer has returned. -/
def enqueueForPersistence (capacity : Nat) (s : State) (event : QueryEvent) : State × Fate :=
  if s.queryLogEnabled then
    match s.writer.phase with
    | .returned => (s, .closed)
    | _ =>
      match Telemetry.step capacity s.writer (.send event) with
      | some writer => ({ s with writer := writer }, .sent)
      | none => ({ s with dropped := s.dropped + 1 }, .dropped)
  else (s, .disabled)

/-- A step of the writer; what it persists goes into the table. -/
def advance (capacity : Nat) (s : State) (e : Telemetry.Event) : Option State := do
  let writer ← Telemetry.step capacity s.writer e
  let table ← insertBatch s.table (writer.persisted.drop s.writer.persisted.length)
  some { s with writer := writer, table := table }

section Step

variable (hashName : String → UInt64) (hashIp : IpAddr → UInt64) (capacity : Nat)

/-- One step.  There is no sink any more once the channel is closed from its side, and only
the sink sends. -/
def step (s : State) : Event → Option State
  | .record event =>
    if s.writer.closed then none
    else
      let recorded := { s with stats := s.stats.record hashName hashIp event }
      let (sent, fate) := enqueueForPersistence capacity recorded event
      some { sent with fates := sent.fates ++ [(event, fate)] }
  | .setEnabled on => some { s with queryLogEnabled := on }
  | .writer (.send _) => none
  | .writer e => advance capacity s e

end Step

/-- A new process on a new database. -/
def start (queryLogEnabled : Bool) : State :=
  ⟨Stats.new, queryLogEnabled, 0, startState, QueryLog.empty, []⟩

/-! ### What every step keeps -/

/-- The events with this fate. -/
def State.withFate (s : State) (fate : Fate) : List QueryEvent :=
  (s.fates.filter (fun p => p.2 = fate)).map Prod.fst

variable {hashName : String → UInt64} {hashIp : IpAddr → UInt64} {capacity : Nat}

/-- A step of the writer puts what it persists behind the rest; only a `send` sends. -/
theorem writer_step {s s' : Telemetry.State} {e : Telemetry.Event}
    (h : Telemetry.step capacity s e = some s') :
    (∃ new, s'.persisted = s.persisted ++ new) ∧
    ((∀ event, e ≠ .send event) → s'.sent = s.sent) := by
  have hflush : ∀ stored batch phase,
      (∃ new, (s.flush stored batch phase).persisted = s.persisted ++ new) ∧
        (s.flush stored batch phase).sent = s.sent := by
    intro stored batch phase
    rw [State.flush]
    split_ifs
    · exact ⟨⟨[], (List.append_nil _).symm⟩, rfl⟩
    · exact ⟨⟨_, rfl⟩, rfl⟩
    · exact ⟨⟨[], (List.append_nil _).symm⟩, rfl⟩
  cases step_cases h with
  | send event => exact ⟨⟨[], (List.append_nil _).symm⟩, fun hsend => absurd rfl (hsend event)⟩
  | flush stored => exact ⟨(hflush stored _ _).1, fun _ => (hflush stored _ _).2⟩
  | drainFlush stored => exact ⟨(hflush stored _ _).1, fun _ => (hflush stored _ _).2⟩
  | lastFlush stored => exact ⟨(hflush stored _ _).1, fun _ => (hflush stored _ _).2⟩
  | _ => exact ⟨⟨[], (List.append_nil _).symm⟩, fun _ => rfl⟩

/-- The figures count every recorded event, the channel has taken those that were sent, and
the table holds what the writer has persisted. -/
structure Accounted (hashName : String → UInt64) (hashIp : IpAddr → UInt64) (s : State) :
    Prop where
  figures : Stats.Figures hashName hashIp s.stats (s.fates.flatMap (fun p => Stats.bumps p.1))
  sent_eq : s.writer.sent = s.withFate .sent
  dropped_eq : s.dropped = (s.withFate .dropped).length
  rows_eq : (rows s.table).map Prod.snd = s.writer.persisted.map encode
  inv : Inv s.writer

theorem withFate_append (fates : List (QueryEvent × Fate)) (event : QueryEvent) (fate fate' : Fate) :
    ((fates ++ [(event, fate)]).filter (fun p => p.2 = fate')).map Prod.fst =
      (fates.filter (fun p => p.2 = fate')).map Prod.fst ++
        if fate = fate' then [event] else [] := by
  rw [List.filter_append, List.map_append, List.filter_cons, List.filter_nil]
  congr 1
  by_cases h : fate = fate'
  · rw [if_pos (decide_eq_true h), if_pos h]
    rfl
  · rw [if_neg (by rw [decide_eq_true_eq]; exact h), if_neg h]
    rfl

/-- The channel and the counter after one more event. -/
structure Enqueued (event : QueryEvent) (s s' : State) (fate : Fate) : Prop where
  fates_eq : s'.fates = s.fates
  stats_eq : s'.stats = s.stats
  table_eq : s'.table = s.table
  persisted_eq : s'.writer.persisted = s.writer.persisted
  handed_eq : s'.writer.handed = s.writer.handed
  sent_eq : s'.writer.sent = s.writer.sent ++ if fate = .sent then [event] else []
  dropped_eq : s'.dropped = s.dropped + if fate = .dropped then 1 else 0
  inv : Inv s'.writer

theorem enqueued {s s' : State} {event : QueryEvent} {fate : Fate} (hinv : Inv s.writer)
    (h : enqueueForPersistence capacity s event = (s', fate)) : Enqueued event s s' fate := by
  rw [enqueueForPersistence] at h
  split_ifs at h with hon
  · split at h
    · cases h
      exact ⟨rfl, rfl, rfl, rfl, rfl, (List.append_nil _).symm, rfl, hinv⟩
    · split at h
      · rename_i writer hsend
        cases h
        have hinv' := inv_step hinv hsend
        rw [Telemetry.step] at hsend
        split at hsend
        · cases hsend
        · split_ifs at hsend
          cases hsend
          exact ⟨rfl, rfl, rfl, rfl, rfl, rfl, rfl, hinv'⟩
      · cases h
        exact ⟨rfl, rfl, rfl, rfl, rfl, (List.append_nil _).symm, rfl, hinv⟩
  · cases h
    exact ⟨rfl, rfl, rfl, rfl, rfl, (List.append_nil _).symm, rfl, hinv⟩

/-- A query is recorded: it moves the figures, and then meets its fate. -/
theorem step_record {s s' : State} {event : QueryEvent} (hinv : Inv s.writer)
    (h : step hashName hashIp capacity s (.record event) = some s') :
    ∃ sent fate, s' = { sent with fates := sent.fates ++ [(event, fate)] } ∧
      Enqueued event { s with stats := s.stats.record hashName hashIp event } sent fate := by
  unfold step at h
  dsimp only at h
  split_ifs at h
  cases hsent : enqueueForPersistence capacity
      { s with stats := s.stats.record hashName hashIp event } event with
  | mk sent fate =>
    rw [hsent] at h
    cases h
    exact ⟨sent, fate, rfl,
      enqueued (s := { s with stats := s.stats.record hashName hashIp event }) hinv hsent⟩

theorem advance_eq_some {s s' : State} {e : Telemetry.Event} (h : advance capacity s e = some s') :
    ∃ writer table, Telemetry.step capacity s.writer e = some writer ∧
      insertBatch s.table (writer.persisted.drop s.writer.persisted.length) = some table ∧
      s' = { s with writer := writer, table := table } := by
  obtain ⟨writer, hwriter, h⟩ := Option.bind_eq_some_iff.mp h
  obtain ⟨table, htable, h⟩ := Option.bind_eq_some_iff.mp h
  exact ⟨writer, table, hwriter, htable, (Option.some.inj h).symm⟩

theorem step_writer {s s' : State} {e : Telemetry.Event}
    (h : step hashName hashIp capacity s (.writer e) = some s') :
    (∀ event, e ≠ .send event) ∧
    ∃ writer table, Telemetry.step capacity s.writer e = some writer ∧
      insertBatch s.table (writer.persisted.drop s.writer.persisted.length) = some table ∧
      s' = { s with writer := writer, table := table } := by
  cases e with
  | send event => cases h
  | _ => exact ⟨fun _ he => Telemetry.Event.noConfusion he, advance_eq_some h⟩

/-- The columns of the rows after a batch. -/
theorem columns_insertBatch {t t' : QueryLogTable} {records : List QueryLogRecord}
    (h : insertBatch t records = some t') :
    (rows t').map Prod.snd = (rows t).map Prod.snd ++ records.map encode := by
  rw [rows_of_insertBatch h, List.map_append, List.map_snd_zip (by simp)]

/-- **One step** keeps the accounts. -/
theorem accounted_step {s s' : State} {e : Event} (h : Accounted hashName hashIp s)
    (hstep : step hashName hashIp capacity s e = some s') : Accounted hashName hashIp s' := by
  cases e with
  | record event =>
    obtain ⟨sent, fate, rfl, henqueued⟩ := step_record h.inv hstep
    have hfates : sent.fates = s.fates := henqueued.fates_eq
    refine ⟨?_, ?_, ?_, ?_, henqueued.inv⟩
    · -- The figures are counted whatever becomes of the event.
      show Stats.Figures hashName hashIp sent.stats
        ((sent.fates ++ [(event, fate)]).flatMap (fun p => Stats.bumps p.1))
      rw [henqueued.stats_eq, hfates, List.flatMap_append, List.flatMap_cons, List.flatMap_nil,
        List.append_nil]
      exact h.figures.foldl _
    · show sent.writer.sent = _
      rw [State.withFate, hfates, withFate_append, henqueued.sent_eq]
      exact congrArg (· ++ _) h.sent_eq
    · show sent.dropped = _
      rw [State.withFate, hfates, withFate_append, henqueued.dropped_eq, List.length_append]
      have hdropped : s.dropped = _ := h.dropped_eq
      rw [State.withFate] at hdropped
      rw [hdropped]
      congr 1
      split_ifs <;> rfl
    · show (rows sent.table).map Prod.snd = sent.writer.persisted.map encode
      rw [henqueued.table_eq, henqueued.persisted_eq]
      exact h.rows_eq
  | setEnabled on =>
    cases hstep
    exact ⟨h.figures, h.sent_eq, h.dropped_eq, h.rows_eq, h.inv⟩
  | writer e =>
    obtain ⟨hsend, writer, table, hwriter, htable, rfl⟩ := step_writer hstep
    obtain ⟨⟨new, hnew⟩, hsent⟩ := writer_step hwriter
    -- The writer only appends to what it has persisted, and the table takes the new part.
    rw [hnew, List.drop_left] at htable
    refine ⟨h.figures, (hsent hsend).trans h.sent_eq, h.dropped_eq, ?_, inv_step h.inv hwriter⟩
    show (rows table).map Prod.snd = writer.persisted.map encode
    rw [columns_insertBatch htable, h.rows_eq, hnew, List.map_append]

theorem accounted_start (queryLogEnabled : Bool) :
    Accounted hashName hashIp (start queryLogEnabled) :=
  ⟨Stats.figures_new hashName hashIp, rfl, rfl, rfl, inv_initial ⟨rfl, rfl, rfl, rfl, rfl, rfl⟩⟩

/-- Each event handed over has its record, unless an insert failed. -/
theorem persisted_sink {s s' : State} {e : Event} (hinv : Inv s.writer) (h : Persisted s.writer)
    (hstored : e ≠ .writer (.flush false)) (hstep : step hashName hashIp capacity s e = some s') :
    Persisted s'.writer := by
  cases e with
  | record event =>
    obtain ⟨sent, fate, rfl, henqueued⟩ := step_record hinv hstep
    show List.Forall₂ RecordOf sent.writer.handed.flatten sent.writer.persisted
    rw [henqueued.handed_eq, henqueued.persisted_eq]
    exact h
  | setEnabled on =>
    cases hstep
    exact h
  | writer e =>
    obtain ⟨hsend, writer, table, hwriter, htable, rfl⟩ := step_writer hstep
    exact persisted_step h (fun he => hstored (congrArg Event.writer he)) hwriter

/-! ### Whole runs -/

/-- The row of an event, under some blocklist. -/
def RowOf (event : QueryEvent) (row : QueryLogRow) : Prop :=
  ∃ record, RecordOf event record ∧ row = encode record

theorem rows_of_persisted {s : State} (h : Accounted hashName hashIp s)
    (hpersisted : Persisted s.writer) :
    List.Forall₂ RowOf s.writer.handed.flatten ((rows s.table).map Prod.snd) := by
  rw [h.rows_eq, List.forall₂_map_right_iff]
  exact hpersisted.imp (fun _ _ hrecord => ⟨_, hrecord, rfl⟩)

/-- The writer has handed over all that was sent, once it has returned uncancelled. -/
theorem handed_eq_sent {s : State} (h : Accounted hashName hashIp s)
    (hreturned : s.writer.phase = .returned) (hcancel : s.writer.cancelled = false) :
    s.writer.handed.flatten = s.withFate .sent := by
  have hphase := h.inv.phase
  rw [hreturned] at hphase
  obtain hcancelled | ⟨-, hqueue⟩ := hphase
  · rw [hcancel] at hcancelled
    cases hcancelled
  · have hsent := h.inv.sent_eq
    have hreceived := h.inv.received_eq
    rw [hreturned] at hreceived
    rw [← h.sent_eq, hsent, hqueue, List.append_nil, hreceived]
    exact (List.append_nil _).symm

/-- What a run keeps. -/
theorem accounted_run {on : Bool} {es : List Event} {s : State}
    (hrun : Transition.run (step hashName hashIp capacity) (start on) es = some s) :
    Accounted hashName hashIp s ∧
      ((∀ e ∈ es, e ≠ .writer (.flush false)) → Persisted s.writer) := by
  refine ⟨Transition.run_invariant accounted_step (accounted_start on) hrun, ?_⟩
  intro hstored
  have hkeep : ∀ {s s' : State} {e : Event}, (Accounted hashName hashIp s ∧ Persisted s.writer) →
      e ≠ .writer (.flush false) → step hashName hashIp capacity s e = some s' →
        Accounted hashName hashIp s' ∧ Persisted s'.writer := by
    rintro s s' e ⟨haccounted, hpersisted⟩ he hstep
    exact ⟨accounted_step haccounted hstep, persisted_sink haccounted.inv hpersisted he hstep⟩
  have hstart : Accounted hashName hashIp (start on) ∧ Persisted (start on).writer :=
    ⟨accounted_start on, .nil⟩
  exact (Transition.run_invariant_along hkeep hstart
    (Transition.Along.of_forall (fun e he _ => hstored e he)) hrun).2

theorem RowOf.columns {event : QueryEvent} {row : QueryLogRow} (h : RowOf event row) :
    row.ts = event.ts ∧ row.qname = event.qname.display ∧ row.outcome = event.outcome.asStr := by
  obtain ⟨record, ⟨blocklist, rfl⟩, rfl⟩ := h
  rw [recordFor]
  split_ifs <;> exact ⟨rfl, rfl, rfl⟩

section Agree

variable {events : List QueryEvent} {columns : List QueryLogRow}

theorem countP_columns (h : List.Forall₂ RowOf events columns) {p : QueryLogRow → Bool}
    {q : QueryEvent → Bool} (hpq : ∀ event row, RowOf event row → p row = q event) :
    columns.countP p = events.countP q := by
  induction h with
  | nil => rfl
  | cons hrow _ ih => rw [List.countP_cons, List.countP_cons, ih, hpq _ _ hrow]

theorem qnames_columns (h : List.Forall₂ RowOf events columns) :
    columns.map (·.qname) = events.map (·.qname.display) := by
  induction h with
  | nil => rfl
  | cons hrow _ ih => rw [List.map_cons, List.map_cons, ih, hrow.columns.2.1]

/-- Outcomes have different texts. -/
theorem blocked_text (outcome : Outcome) :
    decide (outcome.asStr ∈ ["blocked-admin", "blocked-blocklist"]) = outcome.isBlock := by
  cases outcome <;> decide

theorem cached_text (outcome : Outcome) :
    decide (outcome.asStr = "cached") = decide (outcome = .cached) := by
  cases outcome <;> decide

theorem forwarded_text (outcome : Outcome) :
    decide (outcome.asStr = "forwarded") = decide (outcome = .forwarded) := by
  cases outcome <;> decide

/-- The figures of a window that has all the rows. -/
theorem counts_of_columns {t : QueryLogTable} {since : Int64}
    (h : List.Forall₂ RowOf events ((rows t).map Prod.snd))
    (hsince : ∀ event ∈ events, since ≤ event.ts) :
    countsSince t since = ⟨events.length, events.countP (·.outcome.isBlock),
      events.countP (·.outcome = .cached), events.countP (·.outcome = .forwarded)⟩ ∧
    ∀ n, topDomainsSince t since n =
      TopCounts.top id n (TopCounts.tally (events.map (·.qname.display))) := by
  have hwindow : window t since = (rows t).map Prod.snd := by
    have hcount : ((rows t).map Prod.snd).countP (fun r => since ≤ r.ts) =
        events.countP (fun event => since ≤ event.ts) :=
      countP_columns h (fun event row hrow => by rw [hrow.columns.1])
    have hall : events.countP (fun event => since ≤ event.ts) = events.length :=
      List.countP_eq_length.mpr (fun event hevent => decide_eq_true (hsince event hevent))
    rw [window, List.filter_eq_self]
    exact List.countP_eq_length.mp (hcount.trans (hall.trans h.length_eq))
  refine ⟨?_, ?_⟩
  · rw [countsSince, hwindow, ← h.length_eq]
    congr 1
    · exact countP_columns h (fun event row hrow => by
        rw [hrow.columns.2.2]
        exact blocked_text event.outcome)
    · exact countP_columns h (fun event row hrow => by
        rw [hrow.columns.2.2]
        exact cached_text event.outcome)
    · exact countP_columns h (fun event row hrow => by
        rw [hrow.columns.2.2]
        exact forwarded_text event.outcome)
  · intro n
    rw [topDomainsSince, hwindow, qnames_columns h]

end Agree

/-- **Both figures agree.**  When the writer has returned uncancelled, no insert failed and
no query was held back, then over a window with all queries the log gives the counters of
the runtime figures, and their top domains as well if no shard was too small. -/
theorem figures_agree {on : Bool} {es : List Event} {s : State} {since : Int64}
    (hrun : Transition.run (step hashName hashIp capacity) (start on) es = some s)
    (hstored : ∀ e ∈ es, e ≠ .writer (.flush false))
    (hreturned : s.writer.phase = .returned) (hcancel : s.writer.cancelled = false)
    (hsent : ∀ p ∈ s.fates, p.2 = .sent) (hsince : ∀ p ∈ s.fates, since ≤ p.1.ts) :
    countsSince s.table since =
      ⟨s.stats.total, s.stats.blocked, s.stats.cached, s.stats.forwarded⟩ ∧
    (ShardedCounts.Room hashName 256 (s.fates.map (·.1.qname.display)) → ∀ n,
      topDomainsSince s.table since n = (s.stats.snapshot n).topDomains) := by
  obtain ⟨haccounted, hpersisted⟩ := accounted_run hrun
  have hall : s.withFate .sent = s.fates.map Prod.fst := by
    rw [State.withFate, List.filter_eq_self.mpr (fun p hp => decide_eq_true (hsent p hp))]
  have hrows := rows_of_persisted haccounted (hpersisted hstored)
  rw [handed_eq_sent haccounted hreturned hcancel, hall] at hrows
  have horder : (s.fates.flatMap (fun p => Stats.bumps p.1)).Perm
      ((s.fates.map Prod.fst).flatMap Stats.bumps) := by
    rw [List.flatMap_map]
  have hsince' : ∀ event ∈ s.fates.map Prod.fst, since ≤ event.ts := by
    intro event hevent
    obtain ⟨p, hp, rfl⟩ := List.mem_map.mp hevent
    exact hsince p hp
  obtain ⟨hcounts, htop⟩ := counts_of_columns hrows hsince'
  obtain ⟨htotal, hblocked, hcached, hforwarded⟩ := haccounted.figures.counters horder
  refine ⟨?_, ?_⟩
  · rw [hcounts, htotal, hblocked, hcached, hforwarded]
  · intro hroom n
    have hnames : (s.fates.map Prod.fst).map (·.qname.display) =
        s.fates.map (·.1.qname.display) := by
      rw [List.map_map]
      rfl
    rw [htop, haccounted.figures.topDomains horder (hnames ▸ hroom)]

/-- One query, through the sink and the writer into the table. -/
def sampleRun : List Event :=
  [.record sampleEvent, .writer (.recvMany 1), .writer .expire, .writer (.flush true),
    .writer .checkToken, .writer .close, .writer .recvClosed]

theorem figures_agree_sample : ∃ s,
    Transition.run (step (fun _ => 0) (fun _ => 0) 4096) (start true) sampleRun = some s ∧
    s.stats.total = 1 ∧ countsSince s.table 1000 =
      ⟨s.stats.total, s.stats.blocked, s.stats.cached, s.stats.forwarded⟩ := by
  obtain ⟨s, hrun, htotal, hreturned, hcancel, hfates⟩ : ∃ s,
      Transition.run (step (fun _ => 0) (fun _ => 0) 4096) (start true) sampleRun = some s ∧
        s.stats.total = 1 ∧ s.writer.phase = .returned ∧ s.writer.cancelled = false ∧
          s.fates = [(sampleEvent, .sent)] := ⟨_, rfl, rfl, rfl, rfl, rfl⟩
  have hstored : ∀ e ∈ sampleRun, e ≠ .writer (.flush false) := by
    simp [sampleRun]
  have hsent : ∀ p ∈ s.fates, p.2 = .sent := by
    rw [hfates]
    simp
  have hsince : ∀ p ∈ s.fates, (1000 : Int64) ≤ p.1.ts := by
    rw [hfates]
    decide
  exact ⟨s, hrun, htotal, (figures_agree hrun hstored hreturned hcancel hsent hsince).1⟩

end Telemetry.Sink

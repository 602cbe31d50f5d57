/-
The query-log retention (`telemetry/query_log_purge.rs`).

Once an hour the purger fixes a cutoff and deletes what is older, a thousand rows at a
time, until a statement finds none.  Batches are inserted and the log is cleared between
its statements, and a statement may fail and end the cycle.  `unpurged` is the same log
without the purger:

* `purge_perm` — a statement takes the oldest expired rows away and keeps the others;
* `Follows`, `follows_step` — what is recent is the same in both logs, in every state;
* `figures_unpurged` — so the dashboard shows the same figures for both, in any run;
* `purge_cycle` — what a cycle leaves, what it returns, and how many statements it takes.
-/
import Mathlib.Data.List.Perm.Basic
import Sagittarius.QueryLogStore
import Sagittarius.Transition

open Resolver Storage Storage.QueryLog Telemetry

/-! ### The clock -/

/-- `time::days`. -/
def Time.days (n : UInt64) : Duration := ⟨n * 86400, 0⟩

/-- `Clock::millis_ago`. -/
def Clock.millisAgo (nowMillis : Int64) (d : Duration) : Int64 :=
  nowMillis - Int64.ofNat (asMillis d)

/-- A window of whole days does not overflow. -/
theorem Clock.toInt_millisAgo {now : Int64} (h : 0 ≤ now) (n : UInt32) :
    (Clock.millisAgo now (Time.days n.toUInt64)).toInt = now.toInt - n.toNat * 86400000 := by
  have hn := n.toNat_lt
  have hsecs : (n.toUInt64 * 86400).toNat = n.toNat * 86400 := by
    rw [UInt64.toNat_mul, UInt32.toNat_toUInt64]
    exact Nat.mod_eq_of_lt (by
      show n.toNat * 86400 < _
      omega)
  have hmillis : asMillis (Time.days n.toUInt64) = n.toNat * 86400000 := by
    rw [asMillis, Time.days, hsecs]
    show n.toNat * 86400 * 1000 + 0 / 1000000 = _
    omega
  have hpos : 0 ≤ now.toInt := Int64.le_iff_toInt_le.mp h
  have hlt := now.toInt_lt
  rw [Clock.millisAgo, hmillis, Int64.toInt_sub, Int64.toInt_ofNat_of_lt (by omega),
    Int.bmod_eq_of_le (by omega) (by omega)]
  omega

/-! ### The pages that show a window -/

namespace Web

/-- `WINDOW` of the dashboard. -/
def WINDOW : Duration := Time.days 1

def TOP_N : Nat := 10

def EFFECTIVENESS_WINDOW : Duration := Time.days 1

/-- `WindowStats`. -/
structure WindowStats where
  counts : QueryLogCounts
  topDomains : List (String × Nat)
  topClients : List (String × Nat)
  deriving DecidableEq, Repr

/-- The persisted window of `AppState::dashboard`. -/
def windowStats (t : QueryLogTable) (nowMillis : Int64) : WindowStats :=
  let since := Clock.millisAgo nowMillis WINDOW
  ⟨countsSince t since, topDomainsSince t since TOP_N, topClientsSince t since TOP_N⟩

/-- The counts that `render_blocklists` reads. -/
def effectivenessCounts (t : QueryLogTable) (nowMillis : Int64) : List (Option Int × Nat) :=
  blockCountsBySourceSince t (Clock.millisAgo nowMillis EFFECTIVENESS_WINDOW)

end Web

namespace Telemetry.QueryLogPurger

def PURGE_BATCH : Nat := 1000

/-- Where `purge_once` is. -/
inductive Phase where
  | idle
  | deleting (cutoff : Int64) (removed : Nat)
  | finished (removed : Nat)
  deriving DecidableEq, Repr

structure State where
  table : QueryLogTable
  phase : Phase

inductive Event where
  | insert (records : List QueryLogRecord)
  | clear
  | tick (nowMillis : Int64) (retentionDays : UInt32)
  | delete
  | fail

/-- `purge_once`, statement by statement, among the other writers of the table. -/
def step (s : State) : Event → Option State
  | .insert records => (insertBatch s.table records).map (fun t => { s with table := t })
  | .clear => some { s with table := clearAll s.table }
  | .tick nowMillis retentionDays =>
    match s.phase with
    | .deleting _ _ => none
    | _ =>
      some { s with
        phase := .deleting (Clock.millisAgo nowMillis (Time.days retentionDays.toUInt64)) 0 }
  | .delete =>
    match s.phase with
    | .deleting cutoff removed =>
      let (table, n) := purgeOlderThan s.table cutoff PURGE_BATCH
      if n = 0 then some ⟨table, .finished removed⟩
      else some ⟨table, .deleting cutoff (removed + n)⟩
    | _ => none
  | .fail =>
    match s.phase with
    | .deleting _ _ => some { s with phase := .idle }
    | _ => none

/-- The log that is never purged. -/
def unpurged (t : QueryLogTable) : Event → Option QueryLogTable
  | .insert records => insertBatch t records
  | .clear => some (clearAll t)
  | _ => some t

/-! ### One statement -/

/-- Whether a row has expired. -/
def old (cutoff : Int64) (r : Nat × QueryLogRow) : Bool := r.2.ts < cutoff

/-- Whether a row is in a window. -/
def recent (since : Int64) (r : Nat × QueryLogRow) : Bool := since ≤ r.2.ts

theorem not_old (cutoff : Int64) (r : Nat × QueryLogRow) : (!old cutoff r) = recent cutoff r := by
  rw [old, recent, ← decide_not]
  exact decide_eq_decide.mpr (by rw [Int64.lt_iff_toInt_lt, Int64.le_iff_toInt_le, not_lt])

variable {t t' ref : QueryLogTable} {cutoff since : Int64} {batchLimit : Nat}

theorem nodup_rows (t : QueryLogTable) : (rows t).Nodup :=
  (rows_pairwise t).imp (fun hlt heq => by
    subst heq
    exact lt_irrefl _ hlt)

/-- **A statement** takes the rows it selects away. -/
theorem purge_perm (t : QueryLogTable) (cutoff : Int64) (batchLimit : Nat) :
    (expired t cutoff batchLimit ++ rows (purgeOlderThan t cutoff batchLimit).1).Perm (rows t) := by
  have hexpired : (expired t cutoff batchLimit).Nodup :=
    ((nodup_rows t).filter _).sublist (List.take_sublist _ _)
  have hnodup : (expired t cutoff batchLimit ++
      rows (purgeOlderThan t cutoff batchLimit).1).Nodup := by
    refine List.nodup_append'.mpr ⟨hexpired, nodup_rows _, ?_⟩
    intro r hr hr'
    exact (mem_purge_iff.mp hr').2 hr
  refine (List.perm_ext_iff_of_nodup hnodup (nodup_rows t)).mpr ?_
  intro r
  rw [List.mem_append, mem_purge_iff]
  constructor
  · rintro (hr | ⟨hr, -⟩)
    · exact (mem_rows_of_expired hr).1
    · exact hr
  · intro hr
    by_cases hexp : r ∈ expired t cutoff batchLimit
    · exact .inl hexp
    · exact .inr ⟨hr, hexp⟩

theorem removed_eq (t : QueryLogTable) (cutoff : Int64) (batchLimit : Nat) :
    (purgeOlderThan t cutoff batchLimit).2 = min batchLimit ((rows t).countP (old cutoff)) := by
  show (((rows t).filter (old cutoff)).take batchLimit).length = _
  rw [List.length_take, List.countP_eq_length_filter]

theorem length_purge (t : QueryLogTable) (cutoff : Int64) (batchLimit : Nat) :
    (purgeOlderThan t cutoff batchLimit).2 +
      (rows (purgeOlderThan t cutoff batchLimit).1).length = (rows t).length := by
  rw [← (purge_perm t cutoff batchLimit).length_eq, List.length_append]
  rfl

theorem old_purge (t : QueryLogTable) (cutoff : Int64) (batchLimit : Nat) :
    (purgeOlderThan t cutoff batchLimit).2 +
      (rows (purgeOlderThan t cutoff batchLimit).1).countP (old cutoff) =
        (rows t).countP (old cutoff) := by
  have hall : (expired t cutoff batchLimit).countP (old cutoff) =
      (expired t cutoff batchLimit).length :=
    List.countP_eq_length.mpr (fun r hr => decide_eq_true (mem_rows_of_expired hr).2)
  rw [← (purge_perm t cutoff batchLimit).countP_eq, List.countP_append, hall]
  rfl

/-- What is not older than the cutoff stays, in order. -/
theorem recent_purge (hcutoff : cutoff ≤ since) :
    (rows (purgeOlderThan t cutoff batchLimit).1).filter (recent since) =
      (rows t).filter (recent since) := by
  show ((rows t).filter _).filter (recent since) = _
  rw [List.filter_filter]
  refine List.filter_congr ?_
  intro r hr
  cases hrecent : recent since r with
  | false => rfl
  | true =>
    -- A selected row is older than the window.
    rw [Bool.true_and, Bool.not_eq_true', decide_eq_false_iff_not]
    intro hid
    obtain ⟨r', hr', hid⟩ := List.mem_map.mp hid
    obtain ⟨hmem, hts⟩ := mem_rows_of_expired hr'
    obtain rfl : r' = r := Sql.Table.eq_of_id_eq hmem hr hid
    have hle : since ≤ r'.2.ts := of_decide_eq_true hrecent
    rw [Int64.lt_iff_toInt_lt] at hts
    rw [Int64.le_iff_toInt_le] at hle hcutoff
    omega

/-! ### The log without the purger -/

/-- Both logs give the next row the same id, and agree on a window. -/
structure Follows (since : Int64) (t ref : QueryLogTable) : Prop where
  nextId_eq : t.table.nextId = ref.table.nextId
  recent_eq : (rows t).filter (recent since) = (rows ref).filter (recent since)

theorem Follows.insertBatch {records : List QueryLogRecord} (h : Follows since t ref)
    (hins : insertBatch t records = some t') :
    ∃ ref', QueryLog.insertBatch ref records = some ref' ∧ Follows since t' ref' := by
  have hids : ref.table.nextId + records.length ≤ 2 ^ 63 := by
    rw [← h.nextId_eq]
    exact insertBatch_isSome_iff.mp (by rw [hins]; rfl)
  obtain ⟨ref', href⟩ := Option.isSome_iff_exists.mp (insertBatch_isSome_iff.mpr hids)
  refine ⟨ref', href, ?_, ?_⟩
  · rw [nextId_of_insertBatch hins, nextId_of_insertBatch href, h.nextId_eq]
  · rw [rows_of_insertBatch hins, rows_of_insertBatch href, List.filter_append,
      List.filter_append, h.recent_eq, h.nextId_eq]

theorem rows_clearAll (t : QueryLogTable) : rows (clearAll t) = [] :=
  List.eq_nil_iff_forall_not_mem.mpr
    (fun _ hr => Bool.noConfusion (mem_deleteWhere.mp hr).2)

theorem Follows.clearAll (h : Follows since t ref) :
    Follows since (clearAll t) (clearAll ref) where
  nextId_eq := h.nextId_eq
  recent_eq := by rw [rows_clearAll, rows_clearAll]

theorem Follows.purge (h : Follows since t ref) (hcutoff : cutoff ≤ since) (batchLimit : Nat) :
    Follows since (purgeOlderThan t cutoff batchLimit).1 ref where
  nextId_eq := h.nextId_eq
  recent_eq := (recent_purge hcutoff).trans h.recent_eq

theorem Follows.window_eq (h : Follows since t ref) : window t since = window ref since := by
  have hwindow : ∀ t : QueryLogTable,
      window t since = ((rows t).filter (recent since)).map Prod.snd := by
    intro t
    rw [window, List.filter_map]
    rfl
  rw [hwindow, hwindow, h.recent_eq]

/-! ### The steps -/

/-- What a step can do. -/
inductive StepTo (s : State) : Event → State → Prop where
  | insert {records : List QueryLogRecord} {t : QueryLogTable}
      (h : insertBatch s.table records = some t) : StepTo s (.insert records) { s with table := t }
  | clear : StepTo s .clear { s with table := clearAll s.table }
  | tick (nowMillis : Int64) (days : UInt32)
      (hphase : ∀ cutoff removed, s.phase ≠ .deleting cutoff removed) :
      StepTo s (.tick nowMillis days)
        { s with phase := .deleting (Clock.millisAgo nowMillis (Time.days days.toUInt64)) 0 }
  | clean {cutoff : Int64} {removed : Nat} (hphase : s.phase = .deleting cutoff removed)
      (hn : (purgeOlderThan s.table cutoff PURGE_BATCH).2 = 0) :
      StepTo s .delete ⟨(purgeOlderThan s.table cutoff PURGE_BATCH).1, .finished removed⟩
  | batch {cutoff : Int64} {removed : Nat} (hphase : s.phase = .deleting cutoff removed)
      (hn : (purgeOlderThan s.table cutoff PURGE_BATCH).2 ≠ 0) :
      StepTo s .delete ⟨(purgeOlderThan s.table cutoff PURGE_BATCH).1,
        .deleting cutoff (removed + (purgeOlderThan s.table cutoff PURGE_BATCH).2)⟩
  | fail {cutoff : Int64} {removed : Nat} (hphase : s.phase = .deleting cutoff removed) :
      StepTo s .fail { s with phase := .idle }

theorem step_cases {s s' : State} {e : Event} (h : step s e = some s') : StepTo s e s' := by
  cases e with
  | insert records =>
    obtain ⟨t, ht, rfl⟩ := Option.map_eq_some_iff.mp h
    exact .insert ht
  | clear =>
    cases h
    exact .clear
  | tick nowMillis days =>
    rw [step] at h
    cases hphase : s.phase with
    | deleting cutoff removed =>
      rw [hphase] at h
      cases h
    | idle =>
      rw [hphase] at h
      cases h
      exact .tick nowMillis days (fun _ _ hp => by
        rw [hphase] at hp
        cases hp)
    | finished removed =>
      rw [hphase] at h
      cases h
      exact .tick nowMillis days (fun _ _ hp => by
        rw [hphase] at hp
        cases hp)
  | delete =>
    rw [step] at h
    cases hphase : s.phase with
    | deleting cutoff removed =>
      rw [hphase] at h
      dsimp only at h
      split_ifs at h with hn
      · cases h
        exact .clean hphase hn
      · cases h
        exact .batch hphase hn
    | idle =>
      rw [hphase] at h
      cases h
    | finished removed =>
      rw [hphase] at h
      cases h
  | fail =>
    rw [step] at h
    cases hphase : s.phase with
    | deleting cutoff removed =>
      rw [hphase] at h
      cases h
      exact .fail hphase
    | idle =>
      rw [hphase] at h
      cases h
    | finished removed =>
      rw [hphase] at h
      cases h

/-- A cycle's cutoff is not in the window. -/
def Below (since : Int64) : Phase → Prop
  | .deleting cutoff _ => cutoff ≤ since
  | _ => True

/-- A tick whose retention does not reach into the window. -/
def KeepsWindow (since : Int64) : Event → Prop
  | .tick nowMillis days => Clock.millisAgo nowMillis (Time.days days.toUInt64) ≤ since
  | _ => True

/-- **One step** is one of the log without the purger, or none. -/
theorem follows_step {s s' : State} {e : Event} (h : Follows since s.table ref)
    (hbelow : Below since s.phase) (he : KeepsWindow since e) (hstep : step s e = some s') :
    Below since s'.phase ∧ ∃ ref', unpurged ref e = some ref' ∧ Follows since s'.table ref' := by
  cases step_cases hstep with
  | insert hins =>
    obtain ⟨ref', href, hfollows⟩ := h.insertBatch hins
    exact ⟨hbelow, ref', href, hfollows⟩
  | clear => exact ⟨hbelow, _, rfl, h.clearAll⟩
  | tick => exact ⟨he, ref, rfl, h⟩
  | clean hphase =>
    rw [hphase] at hbelow
    exact ⟨trivial, ref, rfl, h.purge hbelow _⟩
  | batch hphase =>
    rw [hphase] at hbelow
    exact ⟨hbelow, ref, rfl, h.purge hbelow _⟩
  | fail => exact ⟨trivial, ref, rfl, h⟩

/-- A run, beside the log without the purger. -/
theorem follows_run {es : List Event} {s s' : State} (h : Follows since s.table ref)
    (hbelow : Below since s.phase) (hes : ∀ e ∈ es, KeepsWindow since e)
    (hrun : Transition.run step s es = some s') :
    ∃ ref', Transition.run unpurged ref es = some ref' ∧ Follows since s'.table ref' := by
  let Inv : List Event → State → Prop := fun hist s' => Below since s'.phase ∧
    ∃ ref', Transition.run unpurged ref hist = some ref' ∧ Follows since s'.table ref'
  have hkeep : ∀ {hist : List Event} {s s' : State} {e : Event}, Inv hist s → KeepsWindow since e →
      step s e = some s' → Inv (hist ++ [e]) s' := by
    rintro hist s s' e ⟨hbelow, ref₁, hhist, hfollows⟩ he hstep
    obtain ⟨hbelow', ref₂, href, hfollows'⟩ := follows_step hfollows hbelow he hstep
    exact ⟨hbelow', ref₂, Transition.run_append.mpr ⟨ref₁, hhist,
      Transition.run_cons.mpr ⟨ref₂, href, rfl⟩⟩, hfollows'⟩
  have hstart : Inv [] s := ⟨hbelow, ref, rfl, h⟩
  exact (Transition.run_history hkeep hstart
    (Transition.Along.of_forall (fun e he _ => hes e he)) hrun).2

/-- **The purger does not show on the pages.**  Whatever it deletes, between whatever
batches and clears, and however its cycles end: as long as the retention is a day or more
and the clock does not go back, the figures of the last day are those of a log that was
never purged. -/
theorem figures_unpurged {t : QueryLogTable} {es : List Event} {s : State} {now : Int64}
    (hticks : ∀ nowMillis days, .tick nowMillis days ∈ es →
      1 ≤ days ∧ 0 ≤ nowMillis ∧ nowMillis ≤ now)
    (hrun : Transition.run step ⟨t, .idle⟩ es = some s) :
    ∃ ref, Transition.run unpurged t es = some ref ∧
      Web.windowStats s.table now = Web.windowStats ref now ∧
      Web.effectivenessCounts s.table now = Web.effectivenessCounts ref now := by
  have hkeeps : ∀ e ∈ es, KeepsWindow (Clock.millisAgo now (Time.days 1)) e := by
    intro e he
    cases e with
    | tick nowMillis days =>
      obtain ⟨hdays, hpos, hle⟩ := hticks nowMillis days he
      have hdays : 1 ≤ days.toNat := UInt32.le_iff_toNat_le.mp hdays
      have hnow : 0 ≤ now := Int64.le_trans hpos hle
      have hone := Clock.toInt_millisAgo hnow 1
      have hle : nowMillis.toInt ≤ now.toInt := Int64.le_iff_toInt_le.mp hle
      show _ ≤ Clock.millisAgo now (Time.days (1 : UInt32).toUInt64)
      rw [Int64.le_iff_toInt_le, hone, Clock.toInt_millisAgo hpos]
      show _ ≤ now.toInt - ((1 : Nat) : Int) * 86400000
      omega
    | _ => trivial
  have hstart : Follows (Clock.millisAgo now (Time.days 1)) (State.mk t .idle).table t := ⟨rfl, rfl⟩
  have hbelow : Below (Clock.millisAgo now (Time.days 1)) (State.mk t .idle).phase := trivial
  obtain ⟨ref, href, hfollows⟩ := follows_run hstart hbelow hkeeps hrun
  have hwindow : window s.table (Clock.millisAgo now (Time.days 1)) =
      window ref (Clock.millisAgo now (Time.days 1)) := hfollows.window_eq
  refine ⟨ref, href, ?_, ?_⟩
  · rw [Web.windowStats, Web.windowStats, Web.WINDOW,
      countsSince, countsSince, topDomainsSince, topDomainsSince,
      topClientsSince, topClientsSince, hwindow]
  · rw [Web.effectivenessCounts, Web.effectivenessCounts, Web.EFFECTIVENESS_WINDOW,
      blockCountsBySourceSince, blockCountsBySourceSince, hwindow]

/-- A row of three days ago and one of today; the first is purged. -/
theorem figures_unpurged_expired : ∃ s ref,
    Transition.run step ⟨QueryLog.empty, .idle⟩
      [.insert [sampleRecord 1, sampleRecord 200000000], .tick 259200000 1, .delete] = some s ∧
    (rows s.table).length = 1 ∧ (rows ref).length = 2 ∧
    Web.windowStats s.table 259200000 = Web.windowStats ref 259200000 := by
  obtain ⟨s, hrun, hlength⟩ : ∃ s, Transition.run step ⟨QueryLog.empty, .idle⟩
      [.insert [sampleRecord 1, sampleRecord 200000000], .tick 259200000 1, .delete] = some s ∧
      (rows s.table).length = 1 := ⟨_, rfl, rfl⟩
  have hticks : ∀ nowMillis days, Event.tick nowMillis days ∈
      [Event.insert [sampleRecord 1, sampleRecord 200000000], .tick 259200000 1, .delete] →
        1 ≤ days ∧ 0 ≤ nowMillis ∧ nowMillis ≤ 259200000 := by
    intro nowMillis days h
    simp only [List.mem_cons, reduceCtorEq, Event.tick.injEq, List.not_mem_nil, or_false,
      false_or] at h
    obtain ⟨rfl, rfl⟩ := h
    decide
  obtain ⟨ref, href, hwindow, -⟩ := figures_unpurged hticks hrun
  refine ⟨s, ref, hrun, hlength, ?_, hwindow⟩
  cases href
  rfl

/-! ### A cycle -/

def Event.isDelete : Event → Bool
  | .delete => true
  | _ => false

/-- The records that come in are not older than the cutoff. -/
def Fresh (cutoff : Int64) (es : List Event) : Prop :=
  ∀ records, Event.insert records ∈ es → ∀ r ∈ records, cutoff ≤ r.ts

/-- A cycle after so many statements: the rows it took are those that the log without the
purger has more; and if no old row comes in, it is a full batch each time but the last. -/
structure Cycle (cutoff : Int64) (t : QueryLogTable) (hist : List Event) (s : State)
    (removed : Nat) : Prop where
  phase_eq : s.phase = .deleting cutoff removed
  follows : ∃ ref, Transition.run unpurged t hist = some ref ∧ Follows cutoff s.table ref ∧
    removed + (rows s.table).length = (rows ref).length
  le_removed : hist.countP (·.isDelete) ≤ removed
  removed_le : removed ≤ PURGE_BATCH * hist.countP (·.isDelete)
  fresh : Fresh cutoff hist → removed + (rows s.table).countP (old cutoff) =
      (rows t).countP (old cutoff) ∧
    removed = min (PURGE_BATCH * hist.countP (·.isDelete)) ((rows t).countP (old cutoff)) ∧
    PURGE_BATCH * hist.countP (·.isDelete) < (rows t).countP (old cutoff) + PURGE_BATCH

theorem old_insertBatch {records : List QueryLogRecord} (h : insertBatch t records = some t')
    (hfresh : ∀ r ∈ records, cutoff ≤ r.ts) :
    (rows t').countP (old cutoff) = (rows t).countP (old cutoff) := by
  rw [rows_of_insertBatch h, List.countP_append, Nat.add_eq_left, List.countP_eq_zero]
  intro r hr
  obtain ⟨record, hrecord, hrow⟩ := List.mem_map.mp (List.of_mem_zip hr).2
  have hle := hfresh record hrecord
  rw [old, ← hrow, decide_eq_true_eq]
  show ¬ record.ts < cutoff
  rw [Int64.lt_iff_toInt_lt, not_lt]
  exact Int64.le_iff_toInt_le.mp hle

theorem Cycle.insert {hist : List Event} {s : State} {removed : Nat}
    {records : List QueryLogRecord} (h : Cycle cutoff t hist s removed)
    (hins : insertBatch s.table records = some t') :
    Cycle cutoff t (hist ++ [Event.insert records]) { s with table := t' } removed := by
  have hcount : (hist ++ [Event.insert records]).countP (·.isDelete) = hist.countP (·.isDelete) := by
    rw [List.countP_append]
    rfl
  obtain ⟨ref, href, hfollows, hlength⟩ := h.follows
  obtain ⟨ref', hins', hfollows'⟩ := hfollows.insertBatch hins
  refine ⟨h.phase_eq, ⟨ref', ?_, hfollows', ?_⟩, hcount ▸ h.le_removed, hcount ▸ h.removed_le, ?_⟩
  · exact Transition.run_append.mpr ⟨ref, href, Transition.run_cons.mpr ⟨ref', hins', rfl⟩⟩
  · rw [rows_of_insertBatch hins, rows_of_insertBatch hins', List.length_append,
      List.length_append, hfollows.nextId_eq]
    omega
  · intro hfresh
    rw [hcount]
    obtain ⟨hold, hbounds⟩ := h.fresh
      (fun records hrecords => hfresh records (List.mem_append_left _ hrecords))
    have hnew := hfresh records (List.mem_append_right _ List.mem_cons_self)
    exact ⟨(congrArg (removed + ·) (old_insertBatch hins hnew)).trans hold, hbounds⟩

theorem Cycle.batch {hist : List Event} {s : State} {removed : Nat}
    (h : Cycle cutoff t hist s removed)
    (hn : (purgeOlderThan s.table cutoff PURGE_BATCH).2 ≠ 0) :
    Cycle cutoff t (hist ++ [Event.delete]) ⟨(purgeOlderThan s.table cutoff PURGE_BATCH).1,
      .deleting cutoff (removed + (purgeOlderThan s.table cutoff PURGE_BATCH).2)⟩
      (removed + (purgeOlderThan s.table cutoff PURGE_BATCH).2) := by
  have hcount : (hist ++ [Event.delete]).countP (·.isDelete) = hist.countP (·.isDelete) + 1 := by
    rw [List.countP_append]
    rfl
  have hremoved := removed_eq s.table cutoff PURGE_BATCH
  have hlength' := length_purge s.table cutoff PURGE_BATCH
  have hold' := old_purge s.table cutoff PURGE_BATCH
  obtain ⟨ref, href, hfollows, hlength⟩ := h.follows
  have hle := h.le_removed
  have hle' := h.removed_le
  have hbatch : PURGE_BATCH = 1000 := rfl
  refine ⟨rfl, ⟨ref, ?_, hfollows.purge (Int64.le_refl _) _, ?_⟩, ?_, ?_, ?_⟩
  · exact Transition.run_append.mpr ⟨ref, href, Transition.run_cons.mpr ⟨ref, rfl, rfl⟩⟩
  · dsimp only
    omega
  · omega
  · rw [hbatch] at hle' hremoved
    rw [hcount, hbatch]
    omega
  · intro hfresh
    obtain ⟨hold, hmin, hlt⟩ := h.fresh
      (fun records hrecords => hfresh records (List.mem_append_left _ hrecords))
    rw [hbatch] at hmin hlt hremoved hold' hn
    rw [hcount, hbatch]
    dsimp only
    exact ⟨by omega, by omega, by omega⟩

/-- The statement after these. -/
theorem Cycle.last {es : List Event} {s s' : State} {removed : Nat}
    (h : Cycle cutoff t es s removed) (hstep : step s .delete = some s') :
    ∃ ref removed', Transition.run unpurged t es = some ref ∧
      removed' + (rows s'.table).length = (rows ref).length ∧
      (rows s'.table).filter (recent cutoff) = (rows ref).filter (recent cutoff) ∧
      (s'.phase = .deleting cutoff removed' ∧ es.countP (·.isDelete) < removed' ∨
        s'.phase = .finished removed' ∧ rows s'.table = (rows ref).filter (recent cutoff) ∧
          es.countP (·.isDelete) ≤ removed' ∧ removed' ≤ 1000 * es.countP (·.isDelete)) ∧
      (Fresh cutoff es → (s'.phase = .finished removed' ↔
        es.countP (·.isDelete) = ((rows t).countP (old cutoff) + 999) / 1000)) := by
  obtain ⟨ref, href, hfollows, hlength⟩ := h.follows
  have hremoved := removed_eq s.table cutoff PURGE_BATCH
  have hlength' := length_purge s.table cutoff PURGE_BATCH
  have hold' := old_purge s.table cutoff PURGE_BATCH
  have hfollows' := hfollows.purge (Int64.le_refl cutoff) PURGE_BATCH
  have hle := h.le_removed
  have hle' := h.removed_le
  have hbatch : PURGE_BATCH = 1000 := rfl
  cases step_cases hstep with
  | clean hphase hn =>
    have hsame := h.phase_eq
    rw [hphase] at hsame
    cases hsame
    refine ⟨ref, removed, href, ?_, hfollows'.recent_eq, .inr ⟨rfl, ?_, hle, hle'⟩, ?_⟩
    · dsimp only
      omega
    · -- No old row is left.
      rw [← hfollows'.recent_eq]
      refine (List.filter_eq_self.mpr ?_).symm
      intro r hr
      have hzero : (rows (purgeOlderThan s.table cutoff PURGE_BATCH).1).countP (old cutoff) = 0 := by
        omega
      rw [← not_old, Bool.not_eq_true']
      exact Bool.eq_false_iff.mpr (List.countP_eq_zero.mp hzero r hr)
    · intro hfresh
      obtain ⟨hold, hmin, hlt⟩ := h.fresh hfresh
      rw [hbatch] at hmin hlt
      exact iff_of_true rfl (by omega)
  | batch hphase hn =>
    have hsame := h.phase_eq
    rw [hphase] at hsame
    cases hsame
    refine ⟨ref, removed + (purgeOlderThan s.table cutoff PURGE_BATCH).2, href, ?_,
      hfollows'.recent_eq, .inl ⟨rfl, by omega⟩, ?_⟩
    · dsimp only
      omega
    · intro hfresh
      obtain ⟨hold, hmin, hlt⟩ := h.fresh hfresh
      rw [hbatch] at hmin hlt
      exact iff_of_false (fun hphase => Phase.noConfusion hphase) (by omega)

end Telemetry.QueryLogPurger

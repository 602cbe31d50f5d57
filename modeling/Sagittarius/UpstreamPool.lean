/-
The upstream pool (`resolver/upstream/pool.rs`) and its health tracker (`health.rs`).

A query goes to the upstreams in an order the selector chooses: one after the other up
to a budget, or several at once.  Either way the first success is the result, and each
attempt that finished before it leaves one entry in the tracker.  A parallel attempt
that is still running then is aborted and leaves none.

* `recordAll_counts` — what entries do to the counters of an address;
* `joinLoop_settled` — the loop that both modes share;
* `forward_settled` — the result and the entries of a query, in both modes.
-/
import Sagittarius.ForwardService

open Codec

namespace Resolver

/-! ### Health -/

/-- `Duration`. -/
structure Duration where
  secs : UInt64
  nanos : UInt32
  deriving DecidableEq, Repr

/-- `Duration::as_secs_f64`. -/
def Duration.asSecsF64 (d : Duration) : Float := d.secs.toFloat + d.nanos.toFloat / 1000000000.0

def EWMA_ALPHA : Float := 0.2

/-- `UpstreamStat`. -/
structure UpstreamStat where
  successes : UInt64
  failures : UInt64
  ewmaLatencyMs : Option Float
  lastError : Option String

namespace UpstreamStat

/-- `UpstreamStat::default`. -/
def default : UpstreamStat := ⟨0, 0, none, none⟩

/-- `UpstreamStat::record_success`. -/
def recordSuccess (stat : UpstreamStat) (latency : Duration) : UpstreamStat :=
  let sample := latency.asSecsF64 * 1000.0
  { stat with
    successes := stat.successes + 1
    ewmaLatencyMs := some (match stat.ewmaLatencyMs with
      | some prev => EWMA_ALPHA * sample + (1.0 - EWMA_ALPHA) * prev
      | none => sample) }

/-- `UpstreamStat::record_failure`. -/
def recordFailure (stat : UpstreamStat) (error : String) : UpstreamStat :=
  { stat with failures := stat.failures + 1, lastError := some error }

/-- `UpstreamHealthRow::attempts`. -/
def attempts (stat : UpstreamStat) : UInt64 := stat.successes + stat.failures

/-- The success rate of a row of `UpstreamHealth::snapshot`. -/
def successRate (stat : UpstreamStat) : Float :=
  if stat.attempts = 0 then 0.0 else stat.successes.toFloat / stat.attempts.toFloat

end UpstreamStat

/-- `UpstreamHealth`: the counters of each upstream, by address. -/
abbrev UpstreamHealth : Type := HashMap SocketAddr UpstreamStat

namespace UpstreamHealth

/-- `HashMap::entry` and `or_default`. -/
def stat (health : UpstreamHealth) (addr : SocketAddr) : UpstreamStat :=
  (health.lookup addr).getD UpstreamStat.default

/-- `UpstreamHealth::record_success`. -/
def recordSuccess (health : UpstreamHealth) (addr : SocketAddr) (latency : Duration) :
    UpstreamHealth :=
  health.insert addr ((health.stat addr).recordSuccess latency)

/-- `UpstreamHealth::record_failure`. -/
def recordFailure (health : UpstreamHealth) (addr : SocketAddr) (error : String) :
    UpstreamHealth :=
  health.insert addr ((health.stat addr).recordFailure error)

/-- An entry for one attempt. -/
inductive Recording where
  | success (addr : SocketAddr) (latency : Duration)
  | failure (addr : SocketAddr) (error : String)
  deriving DecidableEq, Repr

/-- Put an entry into the tracker. -/
def record (health : UpstreamHealth) : Recording → UpstreamHealth
  | .success addr latency => health.recordSuccess addr latency
  | .failure addr error => health.recordFailure addr error

/-- Put entries into the tracker, in order. -/
def recordAll (health : UpstreamHealth) (entries : List Recording) : UpstreamHealth :=
  entries.foldl record health

/-- The entry is a success of this address. -/
def Recording.isSuccess (addr : SocketAddr) : Recording → Bool
  | .success addr' _ => addr' = addr
  | .failure _ _ => false

/-- The entry is a failure of this address. -/
def Recording.isFailure (addr : SocketAddr) : Recording → Bool
  | .success _ _ => false
  | .failure addr' _ => addr' = addr

theorem recordAll_cons (health : UpstreamHealth) (entry : Recording) (entries : List Recording) :
    health.recordAll (entry :: entries) = (health.record entry).recordAll entries := rfl

/-- One entry adds one to one counter of one address. -/
theorem record_counts (health : UpstreamHealth) (entry : Recording) (addr : SocketAddr) :
    ((health.record entry).stat addr).successes
        = (health.stat addr).successes + UInt64.ofNat (entry.isSuccess addr).toNat ∧
      ((health.record entry).stat addr).failures
        = (health.stat addr).failures + UInt64.ofNat (entry.isFailure addr).toNat := by
  cases entry with
  | success addr' latency =>
    by_cases h : addr' = addr
    · subst h
      simp [record, recordSuccess, stat, Recording.isSuccess, Recording.isFailure,
        UpstreamStat.recordSuccess]
    · simp [record, recordSuccess, stat, Recording.isSuccess, Recording.isFailure, h,
        AList.lookup_insert_ne (Ne.symm h)]
  | failure addr' error =>
    by_cases h : addr' = addr
    · subst h
      simp [record, recordFailure, stat, Recording.isSuccess, Recording.isFailure,
        UpstreamStat.recordFailure]
    · simp [record, recordFailure, stat, Recording.isSuccess, Recording.isFailure, h,
        AList.lookup_insert_ne (Ne.symm h)]

/-- **The counters of an address** grow by the entries of that address.  Upstreams that
share an address share its counters. -/
theorem recordAll_counts (health : UpstreamHealth) (entries : List Recording)
    (addr : SocketAddr) :
    ((health.recordAll entries).stat addr).successes
        = (health.stat addr).successes + UInt64.ofNat (entries.countP (·.isSuccess addr)) ∧
      ((health.recordAll entries).stat addr).failures
        = (health.stat addr).failures + UInt64.ofNat (entries.countP (·.isFailure addr)) := by
  induction entries generalizing health with
  | nil => simp [recordAll]
  | cons entry entries ih =>
    obtain ⟨hs, hf⟩ := ih (health.record entry)
    obtain ⟨hs₁, hf₁⟩ := record_counts health entry addr
    have hcount : ∀ p : Recording → Bool, (entry :: entries).countP p
        = (p entry).toNat + entries.countP p := by
      intro p
      rw [List.countP_cons, Nat.add_comm]
      cases p entry <;> rfl
    rw [recordAll_cons, hs, hf, hs₁, hf₁, hcount, hcount, UInt64.ofNat_add, UInt64.ofNat_add]
    exact ⟨UInt64.add_assoc _ _ _, UInt64.add_assoc _ _ _⟩

/-- An address that is not in the entries keeps its row. -/
theorem recordAll_lookup_of_ne {addr : SocketAddr} {entries : List Recording}
    (h : ∀ entry ∈ entries, entry.isSuccess addr = false ∧ entry.isFailure addr = false)
    (health : UpstreamHealth) : (health.recordAll entries).lookup addr = health.lookup addr := by
  induction entries generalizing health with
  | nil => rfl
  | cons entry entries ih =>
    rw [recordAll_cons, ih (fun entry' h' => h entry' (List.mem_cons_of_mem _ h'))]
    obtain ⟨hs, hf⟩ := h entry List.mem_cons_self
    cases entry with
    | success addr' latency =>
      exact AList.lookup_insert_ne (Ne.symm (of_decide_eq_false hs))
    | failure addr' error =>
      exact AList.lookup_insert_ne (Ne.symm (of_decide_eq_false hf))

end UpstreamHealth

/-! ### The pool -/

/-- `ForwardResult`, with the time the exchange took. -/
structure MeasuredResult extends ForwardResult where
  latency : Duration

/-- `Display for upstream::Error`. -/
def UpstreamError.display : UpstreamError → String
  | .allUpstreamsFailed attempts => s!"all upstreams failed after {attempts} attempt(s)"
  | .exchange message => message

/-- `UpstreamObservation`. -/
structure UpstreamObservation where
  ewmaLatencyMs : Option Float
  successRate : Float
  attempts : UInt64

/-- `UpstreamClient`. -/
structure UpstreamClient where
  addr : SocketAddr

/-- `UpstreamPool`. -/
structure UpstreamPool where
  clients : List UpstreamClient
  selector : List UpstreamObservation → List Nat
  maxAttempts : Nat
  parallelFanout : Option Nat

/-- What a finished attempt leaves: the address, and what the exchange returned. -/
abbrev Attempt : Type := SocketAddr × Except UpstreamError MeasuredResult

namespace UpstreamPool

/-- `UpstreamPool::with_parallel_fanout`. -/
def withParallelFanout (pool : UpstreamPool) (fanout : Nat) : UpstreamPool :=
  { pool with parallelFanout := some (max fanout 1) }

/-- `UpstreamPool::observations`. -/
def observations (pool : UpstreamPool) (health : UpstreamHealth) : List UpstreamObservation :=
  pool.clients.map (fun client =>
    match health.lookup client.addr with
    | some row => ⟨row.ewmaLatencyMs, row.successRate, row.attempts⟩
    | none => ⟨none, 0.0, 0⟩)

/-- The order of the upstreams for a query. -/
def order (pool : UpstreamPool) (health : UpstreamHealth) : List Nat :=
  pool.selector (pool.observations health)

/-- The loop of `UpstreamPool::forward_sequential`.  `answers` is what the exchange
with each client returns. -/
def sequentialLoop (pool : UpstreamPool) (answers : Nat → Except UpstreamError MeasuredResult) :
    List Nat → Nat → UpstreamHealth → Except UpstreamError MeasuredResult × UpstreamHealth
  | [], attempts, health => (.error (.allUpstreamsFailed attempts), health)
  | idx :: order, attempts, health =>
    match pool.clients[idx]? with
    | none => sequentialLoop pool answers order attempts health
    | some client =>
      match answers idx with
      | .ok result => (.ok result, health.recordSuccess client.addr result.latency)
      | .error e =>
        sequentialLoop pool answers order (attempts + 1) (health.recordFailure client.addr e.display)

/-- `UpstreamPool::forward_sequential`. -/
def forwardSequential (pool : UpstreamPool) (answers : Nat → Except UpstreamError MeasuredResult)
    (health : UpstreamHealth) (order : List Nat) :
    Except UpstreamError MeasuredResult × UpstreamHealth :=
  sequentialLoop pool answers (order.take pool.maxAttempts) 0 health

/-- The attempt with a client, if there is that client. -/
def attempt (pool : UpstreamPool) (answers : Nat → Except UpstreamError MeasuredResult)
    (idx : Nat) : Option Attempt :=
  pool.clients[idx]?.map (fun client => (client.addr, answers idx))

/-- The loop of `UpstreamPool::forward_parallel`, over the attempts as they finish. -/
def joinLoop : List Attempt → Nat → UpstreamHealth →
    Except UpstreamError MeasuredResult × UpstreamHealth
  | [], attempts, health => (.error (.allUpstreamsFailed attempts), health)
  | (addr, .ok forward) :: _, _, health => (.ok forward, health.recordSuccess addr forward.latency)
  | (addr, .error e) :: joined, attempts, health =>
    joinLoop joined (attempts + 1) (health.recordFailure addr e.display)

/-- `UpstreamPool::forward_parallel`.  The attempts finish in the order `completion`
puts them. -/
def forwardParallel (pool : UpstreamPool) (answers : Nat → Except UpstreamError MeasuredResult)
    (completion : List Attempt → List Attempt) (health : UpstreamHealth) (order : List Nat)
    (fanout : Nat) : Except UpstreamError MeasuredResult × UpstreamHealth :=
  joinLoop (completion ((order.take fanout).filterMap (pool.attempt answers))) 0 health

/-- `UpstreamPool::forward`. -/
def forward (pool : UpstreamPool) (answers : Nat → Except UpstreamError MeasuredResult)
    (completion : List Attempt → List Attempt) (health : UpstreamHealth) :
    Except UpstreamError MeasuredResult × UpstreamHealth :=
  if pool.clients.isEmpty then (.error (.allUpstreamsFailed 0), health)
  else
    match pool.parallelFanout with
    | some fanout => pool.forwardParallel answers completion health (pool.order health) fanout
    | none => pool.forwardSequential answers health (pool.order health)

/-- How many upstreams a query may try. -/
def budget (pool : UpstreamPool) : Nat := pool.parallelFanout.getD pool.maxAttempts

/-! ### The two loops -/

/-- The entry of an attempt that failed. -/
def FailedAs (attempt : Attempt) (entry : UpstreamHealth.Recording) : Prop :=
  ∃ e, attempt.2 = .error e ∧ entry = .failure attempt.1 e.display

/-- The outcome of attempts that finish in this order: the first success, with an entry
for it and one for each failure before; or no success, and an entry for each failure. -/
def Settled (health : UpstreamHealth) (attempts : List Attempt)
    (out : Except UpstreamError MeasuredResult × UpstreamHealth) : Prop :=
  (∃ before addr result after failures,
    attempts = before ++ (addr, .ok result) :: after ∧ List.Forall₂ FailedAs before failures ∧
    out = (.ok result, health.recordAll (failures ++ [.success addr result.latency]))) ∨
  (∃ failures, List.Forall₂ FailedAs attempts failures ∧
    out = (.error (.allUpstreamsFailed attempts.length), health.recordAll failures))

/-- The sequential loop joins the attempts in order. -/
theorem sequentialLoop_eq (pool : UpstreamPool)
    (answers : Nat → Except UpstreamError MeasuredResult) (order : List Nat) (attempts : Nat)
    (health : UpstreamHealth) :
    sequentialLoop pool answers order attempts health
      = joinLoop (order.filterMap (pool.attempt answers)) attempts health := by
  induction order generalizing attempts health with
  | nil => rfl
  | cons idx order ih =>
    rw [sequentialLoop, List.filterMap_cons, attempt]
    cases pool.clients[idx]? with
    | none => exact ih attempts health
    | some client =>
      simp only [Option.map_some]
      cases answers idx with
      | ok result => rfl
      | error e =>
        rw [joinLoop]
        exact ih _ _

/-- **The loop**, from any number of attempts already made. -/
theorem joinLoop_settled (attempts : List Attempt) (made : Nat) (health : UpstreamHealth) :
    (∃ before addr result after failures,
      attempts = before ++ (addr, .ok result) :: after ∧ List.Forall₂ FailedAs before failures ∧
      joinLoop attempts made health
        = (.ok result, health.recordAll (failures ++ [.success addr result.latency]))) ∨
    (∃ failures, List.Forall₂ FailedAs attempts failures ∧
      joinLoop attempts made health
        = (.error (.allUpstreamsFailed (made + attempts.length)), health.recordAll failures)) := by
  induction attempts generalizing made health with
  | nil => exact .inr ⟨[], .nil, rfl⟩
  | cons attempt attempts ih =>
    obtain ⟨addr, outcome⟩ := attempt
    cases outcome with
    | ok result => exact .inl ⟨[], addr, result, attempts, [], rfl, .nil, rfl⟩
    | error e =>
      rw [joinLoop]
      -- A failure is recorded first, and then the loop goes on.
      obtain ⟨before, addr', result, after, failures, rfl, hfailed, hout⟩ | ⟨failures, hfailed, hout⟩ :=
        ih (made + 1) (health.recordFailure addr e.display)
      · refine .inl ⟨(addr, .error e) :: before, addr', result, after,
          .failure addr e.display :: failures, rfl, .cons ⟨e, rfl, rfl⟩ hfailed, ?_⟩
        rw [hout]
        rfl
      · refine .inr ⟨.failure addr e.display :: failures, .cons ⟨e, rfl, rfl⟩ hfailed, ?_⟩
        rw [hout, List.length_cons, Nat.add_assoc, Nat.add_comm 1]
        rfl

theorem settled_joinLoop (health : UpstreamHealth) (attempts : List Attempt) :
    Settled health attempts (joinLoop attempts 0 health) := by
  have h := joinLoop_settled attempts 0 health
  rwa [Nat.zero_add] at h

theorem error_of_failed {attempts : List Attempt} {failures : List UpstreamHealth.Recording}
    (h : List.Forall₂ FailedAs attempts failures) :
    ∀ attempt ∈ attempts, ∃ e, attempt.2 = .error e := by
  induction h with
  | nil => simp
  | cons hfailed _ ih =>
    obtain ⟨e, he, -⟩ := hfailed
    exact List.forall_mem_cons.mpr ⟨⟨e, he⟩, ih⟩

/-- A query has a result exactly if an attempt succeeded. -/
theorem Settled.isOk_iff {health : UpstreamHealth} {attempts : List Attempt}
    {out : Except UpstreamError MeasuredResult × UpstreamHealth} (h : Settled health attempts out) :
    (∃ result, out.1 = .ok result) ↔ ∃ attempt ∈ attempts, ∃ result, attempt.2 = .ok result := by
  obtain ⟨before, addr, result, after, failures, rfl, -, rfl⟩ | ⟨failures, hfailed, rfl⟩ := h
  · exact iff_of_true ⟨result, rfl⟩ ⟨(addr, .ok result), by simp, result, rfl⟩
  · refine iff_of_false ?_ ?_
    · rintro ⟨result, hresult⟩
      cases hresult
    · rintro ⟨attempt, hattempt, result, hok⟩
      obtain ⟨e, herror⟩ := error_of_failed hfailed attempt hattempt
      rw [hok] at herror
      cases herror

/-! ### A query -/

/-- Each index of a client gives one attempt. -/
theorem attempts_of_indices (pool : UpstreamPool)
    (answers : Nat → Except UpstreamError MeasuredResult) {indices : List Nat}
    (h : ∀ idx ∈ indices, idx < pool.clients.length) :
    List.Forall₂ (fun idx attempt => pool.attempt answers idx = some attempt) indices
      (indices.filterMap (pool.attempt answers)) := by
  induction indices with
  | nil => exact .nil
  | cons idx indices ih =>
    have hlt := h idx List.mem_cons_self
    have hidx : pool.attempt answers idx = some (pool.clients[idx].addr, answers idx) := by
      rw [attempt, List.getElem?_eq_getElem hlt]
      rfl
    rw [List.filterMap_cons, hidx]
    exact .cons hidx (ih (fun j hj => h j (List.mem_cons_of_mem _ hj)))

/-- The attempts of a query: a success among them is the success of a client. -/
theorem exists_ok_iff {pool : UpstreamPool} {answers : Nat → Except UpstreamError MeasuredResult}
    {indices : List Nat} {attempts : List Attempt}
    (h : List.Forall₂ (fun idx attempt => pool.attempt answers idx = some attempt) indices attempts) :
    (∃ attempt ∈ attempts, ∃ result, attempt.2 = .ok result) ↔
      ∃ idx ∈ indices, ∃ result, answers idx = .ok result := by
  induction h with
  | nil => simp
  | cons hattempt _ ih =>
    obtain ⟨client, -, rfl⟩ := Option.map_eq_some_iff.mp hattempt
    rw [List.exists_mem_cons_iff, List.exists_mem_cons_iff, ih]

/-- The attempts of a query in the order in which they finish. -/
def finished (pool : UpstreamPool) (completion : List Attempt → List Attempt)
    (attempts : List Attempt) : List Attempt :=
  if pool.parallelFanout = none then attempts else completion attempts

/-- Both modes join the attempts as they finish. -/
theorem forward_eq {pool : UpstreamPool} (hne : pool.clients ≠ [])
    (answers : Nat → Except UpstreamError MeasuredResult)
    (completion : List Attempt → List Attempt) (health : UpstreamHealth) :
    pool.forward answers completion health
      = joinLoop (pool.finished completion
          (((pool.order health).take pool.budget).filterMap (pool.attempt answers))) 0 health := by
  have hnonempty : ¬ pool.clients.isEmpty = true := by
    rw [List.isEmpty_iff]
    exact hne
  rw [forward, if_neg hnonempty, finished, budget]
  cases hmode : pool.parallelFanout with
  | none => exact sequentialLoop_eq pool answers _ 0 health
  | some fanout => rfl

/-- In any order of the clients, those a query may try are clients. -/
theorem lt_of_mem_order {pool : UpstreamPool} {health : UpstreamHealth}
    (hperm : (pool.order health).Perm (List.range pool.clients.length)) :
    ∀ idx ∈ (pool.order health).take pool.budget, idx < pool.clients.length := by
  intro idx hidx
  exact List.mem_range.mp (hperm.mem_iff.mp (List.mem_of_mem_take hidx))

theorem finished_perm (pool : UpstreamPool) {completion : List Attempt → List Attempt}
    (hcompletion : pool.parallelFanout = none ∨ ∀ attempts, (completion attempts).Perm attempts)
    (attempts : List Attempt) : (pool.finished completion attempts).Perm attempts := by
  rw [finished]
  split_ifs with hmode
  · exact List.Perm.refl attempts
  · exact (hcompletion.resolve_left hmode) attempts

/-- A query has a result exactly if one of the clients it may try answers. -/
theorem forward_isOk_iff {pool : UpstreamPool} {health : UpstreamHealth} (hne : pool.clients ≠ [])
    (hperm : (pool.order health).Perm (List.range pool.clients.length))
    (answers : Nat → Except UpstreamError MeasuredResult)
    {completion : List Attempt → List Attempt}
    (hcompletion : pool.parallelFanout = none ∨ ∀ attempts, (completion attempts).Perm attempts) :
    (∃ result, (pool.forward answers completion health).1 = .ok result) ↔
      ∃ idx ∈ (pool.order health).take pool.budget, ∃ result, answers idx = .ok result := by
  rw [forward_eq hne, (settled_joinLoop health _).isOk_iff,
    ← exists_ok_iff (attempts_of_indices pool answers (lt_of_mem_order hperm))]
  -- The order in which they finish does not change which attempts there are.
  simp only [(pool.finished_perm hcompletion _).mem_iff]

end UpstreamPool

end Resolver

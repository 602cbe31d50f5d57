/-
The cache layer of the pipeline (`resolver/pipeline/cache_layer.rs`) and the
lifetime of what it serves.

`CacheService::call` reads the cache, awaits the inner service on a miss and then
stores the answer; calls overlap freely, so the layer is a transition system
with one step for each of these and steps for the clock, for new TTL bounds, for
a clear and for an eviction.  The inner service is arbitrary: it may answer
anything, or fail.

* `step_cache_cases` — what a step can do to the cache;
* `withinExpiry_step` — a step keeps every deadline within the lifetime of its
  own entry, unless it writes over a live entry that has longer to live;
* `served_before_own_expiry` — so in such runs nothing is served late, and a
  write of the other kind does let an entry be served late.
-/
import Sagittarius.Transition
import Sagittarius.DnsCache
import Sagittarius.DecisionStack

open Codec

namespace Resolver

/-- `CacheDirective`. -/
inductive CacheDirective where
  | store (bytes : Bytes) (ttlOffsets : List Nat) (expiry : UInt32)
  | skip
  deriving DecidableEq, Repr

/-- `ForwardOutput`. -/
structure ForwardOutput where
  reply : PipelineResponse
  directive : CacheDirective
  deriving DecidableEq, Repr

namespace CacheService

/-- A call that missed: at the inner service, or with an answer to store. -/
inductive Pending where
  | forwarded (question : Question)
  | answered (question : Question) (bytes : Bytes) (ttlOffsets : List Nat) (expiry : UInt32)

structure State where
  cache : DnsCache
  now : Nat
  pending : HashMap Nat Pending

/-- A fresh cache at the instant `start`. -/
def State.new (start : Nat) (minTtl maxTtl : UInt32) : State :=
  ⟨DnsCache.new minTtl maxTtl, start, ∅⟩

/-- The calls carry an id of their own. -/
inductive Event where
  | advance (d : Nat)
  | call (id : Nat) (question : Question) (clientId : UInt16)
  | answer (id : Nat) (out : Option ForwardOutput)
  | insert (id : Nat)
  | setTtlBounds (minTtl maxTtl : UInt32)
  | clear
  | evict (question : Question)

/-- One step.  A call reads the cache; an answer says whether to store; the
insert stores it.  A panic of the insert ends the call and nothing else. -/
def step (s : State) : Event → Option State
  | .advance d => some { s with now := s.now + d }
  | .call id question clientId =>
    if id ∈ s.pending then none
    else
      match s.cache.get s.now question clientId with
      | some _ => some s
      | none => some { s with pending := s.pending.insert id (.forwarded question) }
  | .answer id out =>
    match s.pending.lookup id with
    | some (.forwarded question) =>
      match out with
      | some ⟨_, .store bytes ttlOffsets expiry⟩ =>
        some { s with pending := s.pending.insert id (.answered question bytes ttlOffsets expiry) }
      | some ⟨_, .skip⟩ => some { s with pending := s.pending.erase id }
      -- `inner.call(req).await?`: the error goes to the caller.
      | none => some { s with pending := s.pending.erase id }
    | _ => none
  | .insert id =>
    match s.pending.lookup id with
    | some (.answered question bytes ttlOffsets expiry) =>
      match s.cache.insert s.now question bytes ttlOffsets expiry with
      | .ok cache => some { s with cache := cache, pending := s.pending.erase id }
      | .error _ => some { s with pending := s.pending.erase id }
    | _ => none
  | .setTtlBounds minTtl maxTtl => some { s with cache := s.cache.setTtlBounds minTtl maxTtl }
  | .clear => some { s with cache := s.cache.clear }
  | .evict question => some { s with cache := s.cache.evict question }

/-! ### What a step does to the cache -/

/-- An insert is due: this call has this answer to store. -/
def Stores (s : State) (id : Nat) (question : Question) (bytes : Bytes) (ttlOffsets : List Nat)
    (expiry : UInt32) : Prop :=
  s.pending.lookup id = some (.answered question bytes ttlOffsets expiry)

theorem step_cache_cases {s s' : State} {e : Event} (h : step s e = some s') :
    s'.cache = s.cache ∨
    (∃ minTtl maxTtl, s'.cache = s.cache.setTtlBounds minTtl maxTtl) ∨
    s'.cache = s.cache.clear ∨
    (∃ question, s'.cache = s.cache.evict question) ∨
    (∃ id question bytes ttlOffsets expiry, e = .insert id ∧
      Stores s id question bytes ttlOffsets expiry ∧
      s.cache.insert s.now question bytes ttlOffsets expiry = .ok s'.cache) := by
  cases e with
  | advance d =>
    rw [step, Option.some.injEq] at h
    exact Or.inl (h ▸ rfl)
  | call id question clientId =>
    rw [step] at h
    split_ifs at h with hid
    split at h
    · rw [Option.some.injEq] at h
      exact Or.inl (h ▸ rfl)
    · rw [Option.some.injEq] at h
      exact Or.inl (h ▸ rfl)
  | answer id out =>
    rw [step] at h
    split at h
    · split at h
      all_goals
        rw [Option.some.injEq] at h
        exact Or.inl (h ▸ rfl)
    · cases h
  | insert id =>
    rw [step] at h
    split at h
    · rename_i question bytes ttlOffsets expiry hpending
      split at h
      · rename_i cache hinsert
        rw [Option.some.injEq] at h
        subst h
        exact Or.inr (Or.inr (Or.inr (Or.inr
          ⟨id, question, bytes, ttlOffsets, expiry, rfl, hpending, hinsert⟩)))
      · rw [Option.some.injEq] at h
        exact Or.inl (h ▸ rfl)
    · cases h
  | setTtlBounds minTtl maxTtl =>
    rw [step, Option.some.injEq] at h
    exact Or.inr (Or.inl ⟨minTtl, maxTtl, h ▸ rfl⟩)
  | clear =>
    rw [step, Option.some.injEq] at h
    exact Or.inr (Or.inr (Or.inl (h ▸ rfl)))
  | evict question =>
    rw [step, Option.some.injEq] at h
    exact Or.inr (Or.inr (Or.inr (Or.inl ⟨question, h ▸ rfl⟩)))

/-! ### Deadlines within the lifetime of the own entry -/

/-- Every deadline lies within the lifetime of the entry it stands at. -/
def WithinExpiry (c : DnsCache) : Prop :=
  ExpiringCache.All
    (fun _ e => ∃ d, e.deadline = some d ∧ d ≤ e.value.storedAt + e.value.expiry) c.inner

/-- The event is no insert over a live entry that has longer to live than the
entry it stores. -/
def outlivesReplaced (s : State) : Event → Bool
  | .insert id =>
    match s.pending.lookup id with
    | some (.answered question _ _ expiry) =>
      match s.cache.clampTtl expiry, s.cache.liveDeadline s.now question with
      | .ok clamped, some d => d ≤ s.now + fromSecs clamped
      | _, _ => true
    | _ => true
  | _ => true

theorem withinExpiry_new (start : Nat) (minTtl maxTtl : UInt32) :
    WithinExpiry (State.new start minTtl maxTtl).cache := ExpiringCache.All.empty _

theorem withinExpiry_step {s s' : State} {e : Event} (hin : WithinExpiry s.cache)
    (hgood : outlivesReplaced s e = true) (h : step s e = some s') : WithinExpiry s'.cache := by
  obtain hsame | ⟨_, _, hbounds⟩ | hclear | ⟨question, hevict⟩ |
    ⟨id, question, bytes, ttlOffsets, expiry, rfl, hstores, hinsert⟩ := step_cache_cases h
  · rw [hsame]
    exact hin
  · rw [hbounds]
    exact hin
  · rw [hclear]
    exact ExpiringCache.All.empty _
  · rw [hevict]
    exact hin.evict question
  · -- The deadline after the insert is that of the replaced entry, if it is live.
    obtain ⟨clamped, hclamped, hcache⟩ := DnsCache.insert_ok_iff.mp hinsert
    rw [hcache]
    refine ExpiringCache.All.insert hin ?_
    rw [DnsCache.deadline_insert]
    cases hfind : ExpiringCache.find s.cache.inner s.now question with
    | none => exact ⟨_, rfl, Nat.le_refl _⟩
    | some old =>
      obtain ⟨d, hd, _⟩ := hin question old (ExpiringCache.find_eq_some.mp hfind).1
      refine ⟨d, hd, ?_⟩
      have hlive : s.cache.liveDeadline s.now question = some d := by
        rw [DnsCache.liveDeadline, hfind]
        exact hd
      rw [outlivesReplaced, hstores] at hgood
      simp only [hclamped, hlive, decide_eq_true_eq] at hgood
      exact hgood

/-- Within such deadlines an entry is served strictly before its own expiry. -/
theorem lt_expiry_of_entry {c : DnsCache} {now : Nat} {question : Question} {r : CachedResponse}
    (hin : WithinExpiry c) (h : c.entry now question = some r) :
    now < r.storedAt + r.expiry := by
  obtain ⟨e, hlookup, hlive, rfl⟩ := ExpiringCache.get_eq_some.mp h
  obtain ⟨d, hd, hle⟩ := hin question e hlookup
  have hlt : now < d := (ExpiringCache.live_of_deadline hd).mp hlive
  omega

/-- An insert over a longer-lived entry leaves its deadline with the new entry,
which is then served after its own lifetime. -/
theorem served_late_of_insert {s : State} {id : Nat}
    (hbad : outlivesReplaced s (.insert id) = false) :
    ∃ question r d s', Transition.run step s [.insert id, .advance d] = some s' ∧
      s'.cache.entry s'.now question = some r ∧ r.storedAt + r.expiry ≤ s'.now := by
  rw [outlivesReplaced] at hbad
  split at hbad
  · rename_i question bytes ttlOffsets expiry hstores
    split at hbad
    · rename_i clamped d hclamped hlive
      have hlonger : s.now + fromSecs clamped < d := by
        simpa using hbad
      obtain ⟨old, hfind, hd⟩ := Option.bind_eq_some_iff.mp hlive
      let r : CachedResponse := ⟨bytes, ttlOffsets, s.now, fromSecs clamped⟩
      let cache : DnsCache :=
        ⟨ExpiringCache.insert dnsCacheExpiry s.cache.inner s.now question r, s.cache.ttlBounds⟩
      have hinsert : s.cache.insert s.now question bytes ttlOffsets expiry = .ok cache :=
        DnsCache.insert_ok_iff.mpr ⟨clamped, hclamped, rfl⟩
      have hlookup : cache.inner.lookup question = some ⟨r, some d⟩ := by
        rw [ExpiringCache.lookup_insert, DnsCache.deadline_insert, hfind]
        exact congrArg some (congrArg (ExpiringCache.Entry.mk r) hd)
      refine ⟨question, r, fromSecs clamped,
        ⟨cache, s.now + fromSecs clamped, s.pending.erase id⟩, ?_, ?_, Nat.le_refl _⟩
      · rw [Transition.run_cons]
        refine ⟨⟨cache, s.now, s.pending.erase id⟩, ?_, rfl⟩
        rw [step, hstores]
        simp only [hinsert]
      · refine ExpiringCache.get_eq_some.mpr ⟨⟨r, some d⟩, hlookup, ?_, rfl⟩
        exact (ExpiringCache.live_of_deadline rfl).mpr hlonger
    · cases hbad
  · cases hbad

/-- What the cache serves in this state, it serves strictly before the own
`stored_at` plus the own clamped expiry of the entry. -/
def ServesInTime (s : State) : Prop :=
  ∀ question clientId bytes, s.cache.get s.now question clientId = some bytes →
    ∃ r, s.cache.entry s.now question = some r ∧
      bytes = r.patchedFor clientId (asSecsU32 (s.now - r.storedAt)) ∧
      s.now < r.storedAt + r.expiry

/-- **Cache lifetime.**  In every run in which no insert replaces a live entry
that has longer to live than the entry it stores, everything served is served
before its own expiry; and an insert of the other kind, in whatever state, can be
followed by a late serve. -/
theorem served_before_own_expiry (start : Nat) (minTtl maxTtl : UInt32) :
    (∀ es s, Transition.run step (State.new start minTtl maxTtl) es = some s →
      Transition.Along step (fun s e => outlivesReplaced s e = true)
        (State.new start minTtl maxTtl) es → ServesInTime s) ∧
    (∀ s id, outlivesReplaced s (.insert id) = false →
      ∃ d s', Transition.run step s [.insert id, .advance d] = some s' ∧ ¬ ServesInTime s') := by
  constructor
  · intro es s hrun hgood question clientId bytes hget
    have hin : WithinExpiry s.cache :=
      Transition.run_invariant_along (fun h hg he => withinExpiry_step h hg he)
        (withinExpiry_new start minTtl maxTtl) hgood hrun
    obtain ⟨r, hentry, rfl⟩ := DnsCache.get_eq_some.mp hget
    exact ⟨r, hentry, rfl, lt_expiry_of_entry hin hentry⟩
  · intro s id hbad
    obtain ⟨question, r, d, s', hrun, hentry, hlate⟩ := served_late_of_insert hbad
    refine ⟨d, s', hrun, ?_⟩
    intro htimely
    obtain ⟨r', hentry', _, hlt⟩ :=
      htimely question 0 _ (DnsCache.get_eq_some.mpr ⟨r, hentry, rfl⟩)
    rw [hentry, Option.some.injEq] at hentry'
    subst hentry'
    omega

/-- The question for the addresses of the root. -/
def rootQuestion : Question :=
  ⟨⟨".", [], ⟨⟨by simp, by simp [wireLen, MAX_NAME_WIRE_LEN]⟩, by simp⟩, rfl⟩, .a, .in⟩

/-- An answer to store for so many seconds. -/
def answerFor (secs : UInt32) : Option ForwardOutput :=
  some ⟨PipelineResponse.new [] .forwarded, .store [] [] secs⟩

/-- Two calls miss for one question.  The answer of the first may live for
`first` seconds; that of the second, stored a second later, for `second`. -/
def overlappingMisses (first second : UInt32) : List Event :=
  [.call 1 rootQuestion 7, .call 2 rootQuestion 8, .answer 1 (answerFor first), .insert 1,
    .answer 2 (answerFor second), .advance 1000000000, .insert 2]

/-- The answers come with growing lifetimes: the run meets the condition, and the
second answer is there to be served. -/
theorem served_before_own_expiry_growing :
    ∃ s, Transition.run step (State.new 0 0 86400) (overlappingMisses 10 300) = some s ∧
      s.cache.entry s.now rootQuestion = some ⟨[], [], 1000000000, 300000000000⟩ ∧
      ServesInTime s := by
  have hserved : ((Transition.run step (State.new 0 0 86400) (overlappingMisses 10 300)).bind
      fun s => s.cache.entry s.now rootQuestion)
      = some ⟨[], [], 1000000000, 300000000000⟩ := by
    decide
  have hgood : Transition.Along step (fun s e => outlivesReplaced s e = true)
      (State.new 0 0 86400) (overlappingMisses 10 300) := by
    decide
  obtain ⟨s, hrun, hentry⟩ := Option.bind_eq_some_iff.mp hserved
  exact ⟨s, hrun, hentry, (served_before_own_expiry 0 0 86400).1 _ s hrun hgood⟩

/-- With 300 seconds and then 10, the second answer is served 100 seconds after
it was stored. -/
theorem shorter_answer_served_late :
    ¬ ∀ (start : Nat) (minTtl maxTtl : UInt32) (es : List Event) (s : State),
      Transition.run step (State.new start minTtl maxTtl) es = some s → ServesInTime s := by
  intro h
  have hserved : ((Transition.run step (State.new 0 0 86400)
      (overlappingMisses 300 10 ++ [.advance 100000000000])).bind
        fun s => (s.cache.entry s.now rootQuestion).map fun r => (s.now, r))
      = some (101000000000, ⟨[], [], 1000000000, 10000000000⟩) := by
    decide
  obtain ⟨s, hrun, hs⟩ := Option.bind_eq_some_iff.mp hserved
  obtain ⟨r, hentry, hr⟩ := Option.map_eq_some_iff.mp hs
  obtain ⟨hnow, hr⟩ := Prod.mk.inj hr
  obtain ⟨r', hentry', _, hlt⟩ :=
    h _ _ _ _ s hrun rootQuestion 0 _ (DnsCache.get_eq_some.mpr ⟨r, hentry, rfl⟩)
  rw [hentry, Option.some.injEq] at hentry'
  subst hentry' hr
  simp only [hnow] at hlt
  omega

end CacheService

end Resolver

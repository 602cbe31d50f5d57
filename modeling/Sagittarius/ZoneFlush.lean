/-
Forward-zone edits against queries in flight (`web/forward_zones.rs` with the
pipeline services of `resolver/pipeline`).

A query is tagged by the decision stack, looks in the cache, is forwarded to the
tagged target or to the default pool, and has its answer stored; an edit commits
its rows, builds the new set, stores it and clears the cache.  Each of these is a
step of its own and the steps interleave freely, with any number of queries and
edits.  `origin` records, for the proofs only, which authority the stored answer
of a question came from.

* `step_cases` — what a step can do to the cache and to the routes;
* `routed_step` — a step keeps every stored answer with the authority the current
  set selects, unless it stores an answer under a tag that is out of date;
* `hits_follow_routes` — so in such runs every hit outside the window between
  the store and the clear of an edit follows the current set, and a stale insert
  does let a hit go astray.
-/
import Sagittarius.ForwardService
import Sagittarius.Storage
import Sagittarius.SynthLayout

open Codec

namespace Resolver

namespace ZoneFlush

/-- Where a query is in the services below the decision stack. -/
inductive Flight where
  | tagged (req : DnsRequest)
  | missed (req : DnsRequest)
  | answered (req : DnsRequest) (directive : CacheDirective)

/-- Where an edit is: `rebuild_forward_zones` follows the commit. -/
inductive Edit where
  | committed
  | built (set : ForwardZoneSet)
  | stored

structure State where
  resolver : ResolverState
  negativeTtlCap : UInt32
  cache : DnsCache
  now : Nat
  table : Storage.ForwardZoneTable
  flights : HashMap Nat Flight
  edits : HashMap Nat Edit
  origin : HashMap Question (Option SocketAddr)

/-- Nothing is cached, no query is in flight and no edit is under way. -/
structure State.Initial (s : State) : Prop where
  cache_eq : s.cache.inner = ∅
  flights_eq : s.flights = ∅
  edits_eq : s.edits = ∅

inductive Event where
  | advance (d : Nat)
  | tag (id : Nat) (wall : Int64) (query : Query) (client : SocketAddr)
  | lookup (id : Nat)
  | forward (id : Nat) (answer : Except UpstreamError ForwardResult)
  | insert (id : Nat)
  | evict (question : Question)
  | setTtlBounds (minTtl maxTtl : UInt32)
  | reconfigure (resolver : ResolverState) (negativeTtlCap : UInt32)
  | commit (id : Nat) (table : Storage.ForwardZoneTable)
  | build (id : Nat)
  | storeForwardZones (id : Nat)
  | clear (id : Nat)

/-- One step.  A query leaves when it is answered; an edit leaves with the clear
that ends `rebuild_forward_zones`. -/
def step (s : State) : Event → Option State
  | .advance d => some { s with now := s.now + d }
  | .tag id wall query client =>
    if id ∈ s.flights then none
    else
      match DecisionStack.passedOn s.resolver wall (DnsRequest.new query client) with
      | some req => some { s with flights := s.flights.insert id (.tagged req) }
      | none => some s
  | .lookup id =>
    match s.flights.lookup id with
    | some (.tagged req) =>
      match s.cache.get s.now req.query.question req.query.header.id with
      | some _ => some { s with flights := s.flights.erase id }
      | none => some { s with flights := s.flights.insert id (.missed req) }
    | _ => none
  | .forward id answer =>
    match s.flights.lookup id with
    | some (.missed req) =>
      match ForwardService.finish s.negativeTtlCap req
          (ForwardService.exchange s.resolver.forwardZones req answer) with
      | .ok out => some { s with flights := s.flights.insert id (.answered req out.directive) }
      | .error _ => some { s with flights := s.flights.erase id }
    | _ => none
  | .insert id =>
    match s.flights.lookup id with
    | some (.answered req (.store bytes ttlOffsets expiry)) =>
      match s.cache.insert s.now req.query.question bytes ttlOffsets expiry with
      | .ok cache =>
        some { s with
          cache := cache
          flights := s.flights.erase id
          origin := s.origin.insert req.query.question req.forwardTarget }
      | .error _ => some { s with flights := s.flights.erase id }
    | some (.answered _ .skip) => some { s with flights := s.flights.erase id }
    | _ => none
  | .evict question => some { s with cache := s.cache.evict question }
  | .setTtlBounds minTtl maxTtl => some { s with cache := s.cache.setTtlBounds minTtl maxTtl }
  | .reconfigure resolver negativeTtlCap =>
    some { s with
      resolver := { resolver with forwardZones := s.resolver.forwardZones }
      negativeTtlCap := negativeTtlCap }
  | .commit id table =>
    match s.edits.lookup id with
    | none | some .committed =>
      some { s with table := table, edits := s.edits.insert id .committed }
    | _ => none
  | .build id =>
    match s.edits.lookup id with
    | some .committed =>
      let set := ForwardZoneSet.build (Storage.ForwardZones.listEnabled s.table)
      some { s with edits := s.edits.insert id (.built set) }
    | _ => none
  | .storeForwardZones id =>
    match s.edits.lookup id with
    | some (.built set) =>
      some { s with
        resolver := { s.resolver with forwardZones := set }
        edits := s.edits.insert id .stored }
    | _ => none
  | .clear id =>
    match s.edits.lookup id with
    | some .stored => some { s with cache := s.cache.clear, edits := s.edits.erase id }
    | _ => none

/-! ### What a step does to the cache and the routes -/

/-- No edit stands between its store and its clear. -/
def Settled (s : State) : Prop := ∀ id, s.edits.lookup id ≠ some .stored

def Edit.isStored : Edit → Bool
  | .stored => true
  | _ => false

/-- `Settled`, computed. -/
def State.settled (s : State) : Bool := s.edits.entries.all (fun p => !p.2.isStored)

theorem State.settled_iff {s : State} : s.settled = true ↔ Settled s := by
  rw [State.settled, List.all_eq_true]
  constructor
  · intro h id hid
    have := h _ (AList.mem_lookup_iff.mp hid)
    simp [Edit.isStored] at this
  · rintro h ⟨id, edit⟩ hmem
    cases edit with
    | stored => exact absurd (AList.mem_lookup_iff.mpr hmem) (h id)
    | committed => rfl
    | built set => rfl

/-- The authority the current set selects for a name: a zone target, or `none`
for the default pool. -/
def State.selects (s : State) (name : Name) : Option SocketAddr :=
  s.resolver.forwardZones.matchTarget name

/-- The step adds nothing to the cache and leaves the routes alone. -/
structure Quiet (s s' : State) : Prop where
  lookup_of : ∀ q e, s'.cache.inner.lookup q = some e → s.cache.inner.lookup q = some e
  origin_eq : s'.origin = s.origin
  zones_eq : s'.resolver.forwardZones = s.resolver.forwardZones
  settled_of : Settled s' → Settled s

/-- The step stores the answer of a query under its question. -/
structure Inserts (s s' : State) (id : Nat) (req : DnsRequest) (bytes : Bytes)
    (ttlOffsets : List Nat) (expiry : UInt32) : Prop where
  flight_eq : s.flights.lookup id = some (.answered req (.store bytes ttlOffsets expiry))
  cache_eq : s.cache.insert s.now req.query.question bytes ttlOffsets expiry = .ok s'.cache
  origin_eq : s'.origin = s.origin.insert req.query.question req.forwardTarget
  zones_eq : s'.resolver.forwardZones = s.resolver.forwardZones
  edits_eq : s'.edits = s.edits

/-- A step that changes flights only, or the clock. -/
theorem Quiet.of_same {s s' : State} (hcache : s'.cache = s.cache) (horigin : s'.origin = s.origin)
    (hzones : s'.resolver.forwardZones = s.resolver.forwardZones) (hedits : s'.edits = s.edits) :
    Quiet s s' :=
  ⟨fun q e h => by rwa [hcache] at h, horigin, hzones, fun h => by rwa [Settled, hedits] at h⟩

/-- An edit moves to a phase other than `stored`. -/
theorem settled_of_insert {s s' : State} {id : Nat} {edit : Edit}
    (hedits : s'.edits = s.edits.insert id edit) (hold : s.edits.lookup id ≠ some .stored)
    (h : Settled s') : Settled s := by
  intro j
  by_cases hj : j = id
  · exact hj ▸ hold
  · have := h j
    rwa [hedits, AList.lookup_insert_ne hj] at this

theorem step_cases {s s' : State} {e : Event} (h : step s e = some s') :
    Quiet s s' ∨
    (∃ id req bytes ttlOffsets expiry, e = .insert id ∧ Inserts s s' id req bytes ttlOffsets expiry) ∨
    ¬ Settled s' ∨
    s'.cache.inner = ∅ := by
  cases e with
  | advance d =>
    cases h
    exact Or.inl (Quiet.of_same rfl rfl rfl rfl)
  | tag id wall query client =>
    rw [step] at h
    split_ifs at h with hid
    split at h
    all_goals
      cases h
      exact Or.inl (Quiet.of_same rfl rfl rfl rfl)
  | lookup id =>
    rw [step] at h
    split at h
    · split at h
      all_goals
        cases h
        exact Or.inl (Quiet.of_same rfl rfl rfl rfl)
    · cases h
  | forward id answer =>
    rw [step] at h
    split at h
    · split at h
      all_goals
        cases h
        exact Or.inl (Quiet.of_same rfl rfl rfl rfl)
    · cases h
  | insert id =>
    rw [step] at h
    split at h
    · rename_i req bytes ttlOffsets expiry hflight
      split at h
      · rename_i cache hcache
        cases h
        exact Or.inr (Or.inl ⟨id, req, bytes, ttlOffsets, expiry, rfl,
          hflight, hcache, rfl, rfl, rfl⟩)
      · cases h
        exact Or.inl (Quiet.of_same rfl rfl rfl rfl)
    · cases h
      exact Or.inl (Quiet.of_same rfl rfl rfl rfl)
    · cases h
  | evict question =>
    cases h
    refine Or.inl ⟨?_, rfl, rfl, fun h => h⟩
    intro q e hq
    by_cases hqq : q = question
    · subst hqq
      exact absurd hq (by
        show AList.lookup q (AList.erase q s.cache.inner) ≠ some e
        simp [AList.lookup_erase])
    · rwa [show AList.lookup q (s.cache.evict question).inner = AList.lookup q s.cache.inner
        from AList.lookup_erase_ne hqq] at hq
  | setTtlBounds minTtl maxTtl =>
    cases h
    exact Or.inl ⟨fun _ _ h => h, rfl, rfl, fun h => h⟩
  | reconfigure resolver negativeTtlCap =>
    cases h
    exact Or.inl (Quiet.of_same rfl rfl rfl rfl)
  | commit id table =>
    rw [step] at h
    split at h
    · rename_i hold
      cases h
      exact Or.inl ⟨fun _ _ h => h, rfl, rfl, settled_of_insert rfl (by simp [hold])⟩
    · rename_i hold
      cases h
      exact Or.inl ⟨fun _ _ h => h, rfl, rfl, settled_of_insert rfl (by simp [hold])⟩
    · cases h
  | build id =>
    rw [step] at h
    split at h
    · rename_i hold
      cases h
      exact Or.inl ⟨fun _ _ h => h, rfl, rfl, settled_of_insert rfl (by simp [hold])⟩
    · cases h
  | storeForwardZones id =>
    rw [step] at h
    split at h
    · cases h
      refine Or.inr (Or.inr (Or.inl ?_))
      intro hsettled
      exact hsettled id (AList.lookup_insert _)
    · cases h
  | clear id =>
    rw [step] at h
    split at h
    · cases h
      exact Or.inr (Or.inr (Or.inr rfl))
    · cases h

/-! ### Hits and routes -/

/-- Outside the window of an edit, every stored answer came from the authority
the current set selects for its name. -/
def Routed (s : State) : Prop :=
  Settled s → ExpiringCache.All
    (fun q _ => s.origin.lookup q = some (s.selects q.name)) s.cache.inner

/-- The event is no insert, outside the window of an edit, under a tag other than
the target the current set selects. -/
def tagUpToDate (s : State) : Event → Bool
  | .insert id =>
    match s.flights.lookup id with
    | some (.answered req (.store _ _ _)) =>
      !s.settled || req.forwardTarget = s.selects req.name
    | _ => true
  | _ => true

theorem routed_step {s s' : State} {e : Event} (hrouted : Routed s)
    (hgood : tagUpToDate s e = true) (h : step s e = some s') : Routed s' := by
  intro hsettled
  obtain hquiet | ⟨id, req, bytes, ttlOffsets, expiry, rfl, hins⟩ | hopen | hempty := step_cases h
  · intro q e hq
    rw [hquiet.origin_eq, State.selects, hquiet.zones_eq]
    exact hrouted (hquiet.settled_of hsettled) q e (hquiet.lookup_of q e hq)
  · have hsettled₀ : Settled s := by
      rwa [Settled, hins.edits_eq] at hsettled
    have htag : req.forwardTarget = s.selects req.name := by
      rw [tagUpToDate, hins.flight_eq] at hgood
      simpa [State.settled_iff.mpr hsettled₀] using hgood
    obtain ⟨clamped, _, hcache⟩ := DnsCache.insert_ok_iff.mp hins.cache_eq
    rw [hcache]
    intro q e hq
    rw [hins.origin_eq, State.selects, hins.zones_eq]
    by_cases hqq : q = req.query.question
    · subst hqq
      rw [AList.lookup_insert]
      exact congrArg some htag
    · rw [AList.lookup_insert_ne hqq]
      rw [ExpiringCache.lookup_insert_of_ne _ _ _ _ hqq] at hq
      exact hrouted hsettled₀ q e hq
  · exact absurd hsettled hopen
  · rw [hempty]
    exact ExpiringCache.All.empty _

/-- Outside the window of an edit, a hit serves an answer of the authority the
current set selects for the name. -/
def HitsFollowRoutes (s : State) : Prop :=
  Settled s → ∀ question clientId bytes,
    s.cache.get s.now question clientId = some bytes →
      s.origin.lookup question = some (s.selects question.name)

theorem hitsFollowRoutes_of_routed {s : State} (h : Routed s) : HitsFollowRoutes s := by
  intro hsettled question clientId bytes hget
  obtain ⟨r, hentry, _⟩ := DnsCache.get_eq_some.mp hget
  obtain ⟨e, hlookup, _⟩ := ExpiringCache.get_eq_some.mp hentry
  exact h hsettled question e hlookup

/-- An answer stored for longer than no time is there to be served. -/
theorem exists_get_of_insert {c c' : DnsCache} {now : Nat} {question : Question} {bytes : Bytes}
    {ttlOffsets : List Nat} {expiry clamped : UInt32} (clientId : UInt16)
    (h : c.insert now question bytes ttlOffsets expiry = .ok c')
    (hclamped : c.clampTtl expiry = .ok clamped) (hpos : 0 < fromSecs clamped) :
    ∃ out, c'.get now question clientId = some out := by
  obtain ⟨clamped', hclamped', rfl⟩ := DnsCache.insert_ok_iff.mp h
  rw [hclamped, Except.ok.injEq] at hclamped'
  subst hclamped'
  refine ⟨_, DnsCache.get_eq_some.mpr ⟨_, ExpiringCache.get_eq_some.mpr
    ⟨_, ExpiringCache.lookup_insert _ _ _ _ _, ?_, rfl⟩, rfl⟩⟩
  rw [DnsCache.deadline_insert]
  cases hfind : ExpiringCache.find c.inner now question with
  | none => exact (ExpiringCache.live_of_deadline rfl).mpr (Nat.lt_add_of_pos_right hpos)
  | some old => exact (ExpiringCache.find_eq_some.mp hfind).2

/-- **Routing change flushes the cache.**  In every run in which no answer is
stored, outside the window of an edit, under a tag that is out of date, every hit
outside such a window follows the current set; and a stale insert with a positive
lifetime, in whatever state, leaves a hit that does not. -/
theorem hits_follow_routes {s₀ : State} (h₀ : s₀.Initial) :
    (∀ es s, Transition.run step s₀ es = some s →
      Transition.Along step (fun s e => tagUpToDate s e = true) s₀ es → HitsFollowRoutes s) ∧
    (∀ s id req bytes ttlOffsets expiry clamped,
      s.flights.lookup id = some (.answered req (.store bytes ttlOffsets expiry)) →
      s.cache.clampTtl expiry = .ok clamped → 0 < fromSecs clamped →
      tagUpToDate s (.insert id) = false →
      ∃ s', step s (.insert id) = some s' ∧ ¬ HitsFollowRoutes s') := by
  constructor
  · intro es s hrun hgood
    have hinit : Routed s₀ := by
      intro _
      rw [h₀.cache_eq]
      exact ExpiringCache.All.empty _
    exact hitsFollowRoutes_of_routed
      (Transition.run_invariant_along (fun h hg he => routed_step h hg he) hinit hgood hrun)
  · intro s id req bytes ttlOffsets expiry clamped hflight hclamped hpos hbad
    rw [tagUpToDate, hflight] at hbad
    simp only [Bool.or_eq_false_iff, Bool.not_eq_false', decide_eq_false_iff_not] at hbad
    obtain ⟨hsettled, htag⟩ := hbad
    obtain ⟨cache, hcache⟩ : ∃ cache,
        s.cache.insert s.now req.query.question bytes ttlOffsets expiry = .ok cache :=
      ⟨_, DnsCache.insert_ok_iff.mpr ⟨clamped, hclamped, rfl⟩⟩
    let s' : State := { s with
      cache := cache
      flights := s.flights.erase id
      origin := s.origin.insert req.query.question req.forwardTarget }
    have hstep : step s (.insert id) = some s' := by
      rw [step, hflight]
      simp only [hcache]
      rfl
    refine ⟨s', hstep, ?_⟩
    intro hfollow
    obtain ⟨out, hget⟩ := exists_get_of_insert 0 hcache hclamped hpos
    have horigin := hfollow (State.settled_iff.mp hsettled) req.query.question 0 out hget
    rw [AList.lookup_insert, Option.some.injEq] at horigin
    exact htag horigin

/-- A resolver at startup: no lists, no zones, nothing cached. -/
def startState : State where
  resolver := ⟨∅, ∅, ∅, LocalRecordsBuilder.new.build, .nxDomain, ForwardZoneSet.empty, 0⟩
  negativeTtlCap := 3600
  cache := DnsCache.new 1 86400
  now := 0
  table := Sql.Table.empty _
  flights := ∅
  edits := ∅
  origin := ∅

/-- The pool's answer to the sample query: one address, for 60 seconds. -/
def poolAnswer : ForwardResult where
  bytes := [0xAB, 0xCD, 0x81, 0x80, 0, 1, 0, 1, 0, 0, 0, 0, 1, 97, 0, 0, 1, 0, 1,
    0xC0, 0x0C, 0, 1, 0, 1, 0, 0, 0, 60, 0, 4, 192, 0, 2, 1]
  negativeTtl := none
  isNegative := false
  upstream := .v4 ⟨1, 1, 1, 1⟩ 53

/-- The table with a zone for the name of the sample query. -/
def zoneTable : Storage.ForwardZoneTable :=
  (Sql.Table.empty _).append ⟨"a", some "10.0.0.1", true, 0⟩ rfl rfl

/-- A query goes to the pool and comes back. -/
def toPool (id : Nat) : List Event :=
  [.tag id 0 Response.sampleQuery (.v4 ⟨10, 0, 0, 2⟩ 5353), .lookup id,
    .forward id (.ok poolAnswer)]

/-- An edit routes the name to the zone's target and clears the cache. -/
def addZone : List Event := [.commit 9 zoneTable, .build 9, .storeForwardZones 9, .clear 9]

theorem startState_initial : startState.Initial := ⟨rfl, rfl, rfl⟩

/-- What a client of the sample query meets: whether no edit is in its window,
whether there is a hit, whose answer it is, and whom the current set selects. -/
def hitAt (s : State) : Bool × Bool × Option (Option SocketAddr) × Option SocketAddr :=
  let question := Response.sampleQuery.question
  (s.settled, (s.cache.get s.now question 0).isSome, s.origin.lookup question,
    s.selects question.name)

/-- A query that is answered and stored while no edit is under way meets the
condition, and its answer is there to be served. -/
theorem hits_follow_routes_without_edit :
    startState.Initial ∧
    ∃ s, Transition.run step startState (toPool 1 ++ [Event.insert 1]) = some s ∧
      hitAt s = (true, true, some none, none) ∧ HitsFollowRoutes s := by
  have hhit : ((Transition.run step startState (toPool 1 ++ [Event.insert 1])).map hitAt)
      = some (true, true, some none, none) := by
    decide
  have hgood : Transition.Along step (fun s e => tagUpToDate s e = true) startState
      (toPool 1 ++ [Event.insert 1]) := by
    decide
  obtain ⟨s, hrun, hs⟩ := Option.map_eq_some_iff.mp hhit
  exact ⟨startState_initial, s, hrun, hs,
    (hits_follow_routes startState_initial).1 _ s hrun hgood⟩

/-- A query that was forwarded to the pool before the edit stores its answer after
the clear: from then on the pool's answer is served for a name of the zone. -/
theorem late_insert_survives_flush :
    ¬ ∀ (s₀ : State) (es : List Event) (s : State), s₀.Initial →
      Transition.run step s₀ es = some s → HitsFollowRoutes s := by
  intro h
  have hhit : ((Transition.run step startState (toPool 1 ++ addZone ++ [Event.insert 1])).map hitAt)
      = some (true, true, some none, some (.v4 ⟨10, 0, 0, 1⟩ 53)) := by
    decide
  obtain ⟨s, hrun, hs⟩ := Option.map_eq_some_iff.mp hhit
  simp only [hitAt, Prod.mk.injEq] at hs
  obtain ⟨hsettled, hget, horigin, hselects⟩ := hs
  obtain ⟨out, hout⟩ := Option.isSome_iff_exists.mp hget
  have := h startState _ s startState_initial hrun (State.settled_iff.mp hsettled) _ _ _ hout
  rw [horigin, hselects] at this
  simp at this

end ZoneFlush

end Resolver

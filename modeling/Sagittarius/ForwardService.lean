/-
The forward service (`resolver/pipeline/forward.rs`), the innermost service of
the pipeline.

It asks the forwarder of the zone a query was tagged with, or the default
upstream pool, and decides whether the cache layer may store the answer.  The
exchange with an upstream is a parameter: it may return any result or error.

* `ForwardService.directive_eq_store`, `ForwardService.directive_eq_skip_iff` —
  what a store directive holds, and when an answer is not stored;
* `DecisionStack.passedOn_spec` — the tag of a query that reaches the services
  below the decision stack is the target its name has at that moment.
-/
import Sagittarius.CacheService

open BigEndian Codec

namespace Resolver

/-- `ForwardResult`. -/
structure ForwardResult where
  bytes : Bytes
  negativeTtl : Option UInt32
  isNegative : Bool
  upstream : SocketAddr
  deriving DecidableEq, Repr

/-- `upstream::Error`: no forwarder could answer, or an exchange failed. -/
inductive UpstreamError where
  | allUpstreamsFailed (attempts : Nat)
  | exchange (message : String)
  deriving DecidableEq, Repr

/-- The response code of a parsed reply, as far as the forwarder tells codes
apart. -/
inductive ResponseCode where
  | noError
  | nxDomain
  | other (code : UInt16)
  deriving DecidableEq, Repr

/-- What an exchange with an upstream gives: the bytes received, and what the
client library reads off them. -/
structure UpstreamResponse where
  bytes : Bytes
  responseCode : ResponseCode
  negativeTtl : Option UInt32
  containsAnswer : Bool
  deriving DecidableEq, Repr

/-- `UpstreamClient::forward`, once the response is there. -/
def UpstreamClient.forward (addr : SocketAddr) (response : UpstreamResponse) : ForwardResult where
  bytes := response.bytes
  negativeTtl := response.negativeTtl
  isNegative := response.responseCode = .nxDomain ||
    (response.responseCode = .noError && !response.containsAnswer)
  upstream := addr

/-- `ForwardZoneSet::forward`, over the exchange with the target. -/
def ForwardZoneSet.forward (set : ForwardZoneSet) (target : SocketAddr)
    (exchange : Except UpstreamError ForwardResult) : Except UpstreamError ForwardResult :=
  if target ∈ set.forwarders then exchange else .error (.allUpstreamsFailed 0)

/-- `DnsMessageBytes::with_txn_id`. -/
def withTxnId (bytes : Bytes) (id : UInt16) : Bytes :=
  if bytes.length < 2 then bytes else be16 id ++ bytes.drop 2

/-- Before the first TTL, a cached answer is served as the forwarded one was. -/
theorem take_patchedFor {r : CachedResponse} {n : Nat} (id : UInt16) (secs : UInt32)
    (h : ∀ offset ∈ r.ttlOffsets, n ≤ offset) :
    (r.patchedFor id secs).take n = (withTxnId r.bytes id).take n := by
  rw [CachedResponse.patchedFor, CachedResponse.take_foldl_decrementTtl h, withTxnId]
  by_cases hlen : 2 ≤ r.bytes.length
  · rw [if_pos hlen, if_neg (by omega)]
  · rw [if_neg hlen, if_pos (by omega)]

namespace ForwardService

/-- The cache-store policy: the expiry is the capped negative TTL or the least
TTL of the answer, and without one the answer is not stored. -/
def directive (negativeTtlCap : UInt32) (fr : ForwardResult) : CacheDirective :=
  match TtlScan.scan fr.bytes with
  | .error _ => .skip
  | .ok scan =>
    match if fr.isNegative then fr.negativeTtl.map (min · negativeTtlCap) else scan.minTtl with
    | some expiry => .store fr.bytes scan.ttlOffsets expiry
    | none => .skip

/-- The forward step of `ForwardService::call`: to the tagged target, through the
current set, or to the default pool. -/
def exchange (set : ForwardZoneSet) (req : DnsRequest)
    (answer : Except UpstreamError ForwardResult) : Except UpstreamError ForwardResult :=
  match req.forwardTarget with
  | some target => set.forward target answer
  | none => answer

/-- The rest of `ForwardService::call`: the reply and what to do with the cache. -/
def finish (negativeTtlCap : UInt32) (req : DnsRequest) :
    Except UpstreamError ForwardResult → Except Panic ForwardOutput
  | .ok fr =>
    .ok ⟨⟨withTxnId fr.bytes req.query.header.id, .forwarded, some fr.upstream⟩,
      directive negativeTtlCap fr⟩
  | .error _ =>
    match Response.errorResponse req.query .servFail req.edns with
    | .ok bytes => .ok ⟨PipelineResponse.new bytes .servfail, .skip⟩
    | .error p => .error p

/-- A walk over all the records of the message succeeds and finds one with a TTL
of its own: one that is no OPT record. -/
def CarriesTtl (bytes : Bytes) : Prop :=
  ∃ rrs r', Rr.walk (Reader.new bytes) = .ok rrs r' ∧ ∃ rr ∈ rrs, rr.rtype ≠ OPT_TYPE

/-- There is a lifetime to store the answer for: its records can be walked, and a
negative answer came with a negative TTL, another one carries a TTL. -/
def Storable (fr : ForwardResult) : Prop :=
  ∃ rrs r', Rr.walk (Reader.new fr.bytes) = .ok rrs r' ∧
    if fr.isNegative then fr.negativeTtl.isSome = true else ∃ rr ∈ rrs, rr.rtype ≠ OPT_TYPE

/-- What a store directive holds: the bytes of the answer, and where a walk over
them finds the TTLs. -/
theorem directive_eq_store {negativeTtlCap : UInt32} {fr : ForwardResult} {bytes : Bytes}
    {ttlOffsets : List Nat} {expiry : UInt32}
    (h : directive negativeTtlCap fr = .store bytes ttlOffsets expiry) :
    bytes = fr.bytes ∧ Storable fr ∧ ∃ rrs r', Rr.walk (Reader.new bytes) = .ok rrs r' ∧
      ttlOffsets = (rrs.filter (fun rr => rr.rtype ≠ OPT_TYPE)).map Rr.ttlOffset := by
  rw [directive] at h
  cases hscan : TtlScan.scan fr.bytes with
  | error e =>
    rw [hscan] at h
    cases h
  | ok scan =>
    rw [hscan] at h
    obtain ⟨rrs, r', hwalk, rfl⟩ := TtlScan.scan_ok_iff.mp hscan
    simp only at h
    split at h
    · rename_i secs hexpiry
      rw [CacheDirective.store.injEq] at h
      obtain ⟨rfl, rfl, rfl⟩ := h
      refine ⟨rfl, ⟨rrs, r', hwalk, ?_⟩, rrs, r', hwalk, ?_⟩
      · split_ifs at hexpiry with hneg
        · rw [if_pos hneg]
          obtain ⟨ttl, httl, _⟩ := Option.map_eq_some_iff.mp hexpiry
          rw [httl]
          rfl
        · rw [if_neg hneg]
          have hsome := (TtlScan.foldl_add_minTtl_isSome rrs ⟨none, []⟩).mp (by rw [hexpiry]; rfl)
          rcases hsome with hnone | hrr
          · cases hnone
          · exact hrr
      · rw [TtlScan.foldl_add_ttlOffsets, List.nil_append]
    · cases h

/-- An answer is stored exactly when there is a lifetime for it. -/
theorem directive_eq_skip_iff {negativeTtlCap : UInt32} {fr : ForwardResult} :
    directive negativeTtlCap fr = .skip ↔ ¬ Storable fr := by
  constructor
  · rintro hskip ⟨rrs, r', hwalk, hlife⟩
    have hscan := TtlScan.scan_ok_iff.mpr ⟨rrs, r', hwalk, rfl⟩
    rw [directive, hscan] at hskip
    simp only at hskip
    split_ifs at hskip hlife with hneg
    · obtain ⟨ttl, httl⟩ := Option.isSome_iff_exists.mp hlife
      rw [httl] at hskip
      cases hskip
    · obtain ⟨ttl, httl⟩ := Option.isSome_iff_exists.mp
        ((TtlScan.foldl_add_minTtl_isSome rrs ⟨none, []⟩).mpr (Or.inr hlife))
      rw [httl] at hskip
      cases hskip
  · intro hno
    cases hdir : directive negativeTtlCap fr with
    | skip => rfl
    | store bytes ttlOffsets expiry => exact absurd (directive_eq_store hdir).2.1 hno

/-- An answer that is not negative has a lifetime when it carries a TTL. -/
theorem storable_iff_carriesTtl {fr : ForwardResult} (hpos : fr.isNegative = false) :
    Storable fr ↔ CarriesTtl fr.bytes := by
  rw [Storable, hpos]
  rfl

end ForwardService

/-! ### What the decision stack passes on -/

/-- The request `DecisionStack::call` hands to the services below, if it does not
answer the query itself. -/
def DecisionStack.passedOn (st : ResolverState) (now : Int64) (req : DnsRequest) :
    Option DnsRequest :=
  let silent : Service Unit Unit := fun _ s => (.error (.service ()), s)
  (DecisionStack.innerCalls st now silent req ()).head?

/-- The tag of a query that is passed on is the target its name has now. -/
theorem DecisionStack.passedOn_spec {st : ResolverState} {now : Int64} {query : Query}
    {client : SocketAddr} {req : DnsRequest}
    (h : DecisionStack.passedOn st now (DnsRequest.new query client) = some req) :
    req.query = query ∧ req.forwardTarget = st.forwardZones.matchTarget query.question.name := by
  rw [DecisionStack.passedOn, DecisionStack.innerCalls] at h
  obtain ⟨res, hres⟩ := DecisionStack.exists_yields st now
    (DecisionStack.logged (fun _ s => (.error (.service ()), s) : Service Unit Unit))
    (DnsRequest.new query client) ((), [])
  rw [DecisionStack.call_of_yields hres] at h
  -- An unrouted query keeps the tag it came with, which is none.
  have hnone : DecisionStack.Unrouted st (DnsRequest.new query client) →
      st.forwardZones.matchTarget query.question.name = none := by
    intro hroute
    exact DecisionStack.matchTarget_eq_none.mpr hroute.2
  cases hres with
  | zone _ hzone =>
    cases h
    exact ⟨rfl, (DecisionStack.matchTarget_eq_some.mpr hzone).symm⟩
  | paused hroute _ =>
    cases h
    exact ⟨rfl, (hnone hroute).symm⟩
  | forwarded hroute _ _ _ =>
    rw [hnone hroute]
    by_cases hallow : (DnsRequest.new query client).name ∈ st.allowlist
    · rw [if_pos hallow] at h
      cases h
      exact ⟨rfl, rfl⟩
    · rw [if_neg hallow] at h
      cases h
      exact ⟨rfl, rfl⟩
  | localPtr _ _ => cases h
  | localA _ _ _ _ _ => cases h
  | localAaaa _ _ _ _ _ => cases h
  | localNoData _ _ _ _ _ => cases h
  | blockedByAdmin _ _ _ _ => cases h
  | blockedByBlocklist _ _ _ _ _ _ => cases h

end Resolver

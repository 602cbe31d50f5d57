/-
The DNS server around the pipeline (`resolver/pipeline/listener.rs`).

A message arrives over UDP or TCP, is parsed, and goes through the pipeline: the
decision stack, the cache, the forward service.  What comes back is written to
the client.  Each of these is a step of its own and the steps of all clients
interleave freely; the server also asks itself (the internal service), which
fills the same cache.  `origin` and `sent` are records for the proofs: which
response the entry of a question came from, and what was written to whom.

* `Policy` — what may be stored under a question, and what may be the reply to a
  query;
* `Policy.lawful_step` — a step keeps a policy that admits the upstream response
  it uses;
* `Policy.lawful_run` — so the policy holds of every cache entry and of every
  message written, in every run it admits.
-/
import Sagittarius.ForwardService
import Sagittarius.SynthLayout

open BigEndian Codec

namespace Resolver

/-! ### Rejections -/

/-- The errors of the protective layers that `rejection_policy` tells apart. -/
inductive Rejection where
  | rateLimited
  | overloaded
  | other
  deriving DecidableEq, Repr

/-- `ClassifyRejection::rejection_policy`. -/
def Rejection.rejectionPolicy : Rejection → Outcome × Rcode
  | .rateLimited => (.refused, .refused)
  | .overloaded => (.refused, .refused)
  | .other => (.servfail, .servFail)

/-- The reply `DecisionStack::call` makes itself, if it does not pass the query
on. -/
def DecisionStack.ownReply (st : ResolverState) (now : Int64) (req : DnsRequest) : Option Bytes :=
  let silent : Service Unit Unit := fun _ s => (.error (.service ()), s)
  match (DecisionStack.call st now silent req ()).1 with
  | .ok response => some response.bytes
  | .error _ => none

/-- What the decision stack replies is built for the query, with its EDNS. -/
theorem DecisionStack.ownReply_built {st : ResolverState} {now : Int64} {req : DnsRequest}
    {bytes : Bytes} (h : DecisionStack.ownReply st now req = some bytes) :
    ∃ rcode aa answers, Response.build req.query rcode aa answers req.edns = .ok bytes := by
  rw [DecisionStack.ownReply] at h
  obtain ⟨res, hres⟩ := DecisionStack.exists_yields st now
    (fun _ s => (.error (.service ()), s) : Service Unit Unit) req ()
  rw [DecisionStack.call_of_yields hres] at h
  have hblock : ∀ {b}, Response.block req.query st.blockMode DecisionStack.BLOCK_TTL_SECS req.edns
      = .ok b → ∃ rcode aa answers, Response.build req.query rcode aa answers req.edns = .ok b := by
    intro b hb
    obtain ⟨rcode, hrcode⟩ := Response.block_eq req.query st.blockMode
      DecisionStack.BLOCK_TTL_SECS req.edns
    exact ⟨rcode, _, _, hrcode ▸ hb⟩
  cases hres with
  | localPtr _ hbytes =>
    cases h
    exact ⟨_, _, _, hbytes⟩
  | localA _ _ _ _ hbytes =>
    cases h
    exact ⟨_, _, _, hbytes⟩
  | localAaaa _ _ _ _ hbytes =>
    cases h
    exact ⟨_, _, _, hbytes⟩
  | localNoData _ _ _ _ hbytes =>
    cases h
    exact ⟨_, _, _, hbytes⟩
  -- What is passed on has no reply of the stack's own.
  | zone _ _ => cases h
  | paused _ _ => cases h
  | blockedByAdmin _ _ _ hbytes =>
    cases h
    exact hblock hbytes
  | blockedByBlocklist _ _ _ _ _ hbytes =>
    cases h
    exact hblock hbytes
  | forwarded _ _ _ _ => cases h

/-! ### Writing a message -/

namespace Listener

/-- How a query reaches the pipeline; `internal` is `build_internal_service`. -/
inductive Transport where
  | udp
  | tcp
  | internal
  deriving DecidableEq, Repr

/-- Where the bytes of a reply come from: this server, an upstream response, or
a cache entry with the response it was stored from. -/
inductive Source where
  | synthesized
  | forwarded (response : UpstreamResponse)
  | cached (response : Option UpstreamResponse)
  deriving DecidableEq, Repr

/-- Bytes written to a client, with the query they answer if there is one. -/
structure Sent where
  transport : Transport
  query : Option Query
  source : Source
  bytes : Bytes

/-- The DNS message of what was written: a TCP frame starts with its length. -/
def Sent.message (m : Sent) : Bytes :=
  match m.transport with
  | .tcp => m.bytes.drop 2
  | _ => m.bytes

def UDP_DEFAULT_LIMIT : Nat := 512

def UDP_MAX_LIMIT : Nat := 1232

/-- `udp_reply_limit`. -/
def udpReplyLimit (edns : Option EdnsInfo) : Nat :=
  min (match edns with
    | some e => max e.udpPayloadSize.toNat UDP_DEFAULT_LIMIT
    | none => UDP_DEFAULT_LIMIT) UDP_MAX_LIMIT

/-- `framing::tcp::try_encode_length_prefix`. -/
def tryEncodeLengthPrefix (message : Bytes) : Except Error Bytes :=
  if message.length > 65535 then .error (.messageTooLong message.length)
  else .ok (be16 (UInt16.ofNat message.length) ++ message)

/-- A message goes out; one that does not fit a TCP frame closes the connection. -/
def send (transport : Transport) (query : Option Query) (source : Source) (message : Bytes) :
    List Sent :=
  match transport with
  | .udp => [⟨.udp, query, source, message⟩]
  | .tcp =>
    match tryEncodeLengthPrefix message with
    | .ok frame => [⟨.tcp, query, source, frame⟩]
    | .error _ => []
  | .internal => []

/-- The end of `handle_datagram` and of a round of `handle_connection`: only UDP
has a limit. -/
def writeReply (transport : Transport) (req : DnsRequest) (source : Source) (reply : Bytes) :
    List Sent :=
  if transport = .udp ∧ reply.length > udpReplyLimit req.edns then
    match Response.truncated req.query req.edns with
    | .ok bytes => send transport (some req.query) .synthesized bytes
    | .error _ => []
  else send transport (some req.query) source reply

/-- The error path of `run_service`. -/
def writeRejection (transport : Transport) (req : DnsRequest) (rejection : Rejection) : List Sent :=
  match Response.errorResponse req.query rejection.rejectionPolicy.2 req.edns with
  | .ok bytes => writeReply transport req .synthesized bytes
  | .error _ => []

/-- The reply to a message that does not parse. -/
def writeReject (transport : Transport) (e : ParseError) : List Sent :=
  match e.rejectAction with
  | .drop => []
  | .formErr id => send transport none .synthesized (Response.formerr id)
  | .notImp id => send transport none .synthesized (Response.notimp id)

/-! ### The server -/

/-- Where a call is in the services below the decision stack. -/
inductive Phase where
  | tagged
  | missed
  | answered (source : Source) (out : ForwardOutput)
  | replied (source : Source) (reply : Bytes)

/-- A query in the pipeline, as the decision stack left it. -/
structure Call where
  transport : Transport
  req : DnsRequest
  phase : Phase

structure State where
  resolver : ResolverState
  negativeTtlCap : UInt32
  cache : DnsCache
  now : Nat
  calls : HashMap Nat Call
  origin : HashMap Question UpstreamResponse
  sent : List Sent

/-- Nothing is cached, no query is in the pipeline and nothing was written. -/
structure State.Initial (s : State) : Prop where
  cache_eq : s.cache.inner = ∅
  calls_eq : s.calls = ∅
  sent_eq : s.sent = []

inductive Event where
  | advance (d : Nat)
  | receive (id : Nat) (transport : Transport) (raw : Bytes) (client : SocketAddr) (wall : Int64)
  | lookup (id : Nat)
  | forward (id : Nat) (answer : Except UpstreamError (SocketAddr × UpstreamResponse))
  | store (id : Nat)
  | write (id : Nat)
  | reject (id : Nat) (rejection : Rejection)
  | reconfigure (resolver : ResolverState) (negativeTtlCap : UInt32)
  | setTtlBounds (minTtl maxTtl : UInt32)
  | clear
  | evict (question : Question)

/-- A call moves on. -/
def State.moveTo (s : State) (id : Nat) (call : Call) (phase : Phase) : State :=
  { s with calls := s.calls.insert id { call with phase := phase } }

/-- A call ends, and this is written. -/
def State.finish (s : State) (id : Nat) (written : List Sent) : State :=
  { s with calls := s.calls.erase id, sent := s.sent ++ written }

/-- The source of a reply the forward service returns. -/
def sourceOf (exchange : Except UpstreamError ForwardResult)
    (answer : Except UpstreamError (SocketAddr × UpstreamResponse)) : Source :=
  match exchange, answer with
  | .ok _, .ok (_, response) => .forwarded response
  | _, _ => .synthesized

/-- One step.  A call leaves when its reply is written, when a protective layer
rejects it, and in a panic. -/
def step (s : State) : Event → Option State
  | .advance d => some { s with now := s.now + d }
  | .receive id transport raw client wall =>
    if id ∈ s.calls then none
    else
      match Query.parse raw with
      | .error e => some { s with sent := s.sent ++ writeReject transport e }
      | .ok query =>
        let req := DnsRequest.new query client
        match DecisionStack.passedOn s.resolver wall req with
        | some req => some { s with calls := s.calls.insert id ⟨transport, req, .tagged⟩ }
        | none =>
          match DecisionStack.ownReply s.resolver wall req with
          | some reply =>
            some { s with calls := s.calls.insert id ⟨transport, req, .replied .synthesized reply⟩ }
          | none => some s
  | .lookup id =>
    match s.calls.lookup id with
    | some ⟨transport, req, .tagged⟩ =>
      match s.cache.get s.now req.query.question req.query.header.id with
      | some bytes =>
        let source := Source.cached (s.origin.lookup req.query.question)
        some (s.moveTo id ⟨transport, req, .tagged⟩ (.replied source bytes))
      | none => some (s.moveTo id ⟨transport, req, .tagged⟩ .missed)
    | _ => none
  | .forward id answer =>
    match s.calls.lookup id with
    | some ⟨transport, req, .missed⟩ =>
      let exchange := ForwardService.exchange s.resolver.forwardZones req
        (answer.map (fun (addr, response) => UpstreamClient.forward addr response))
      match ForwardService.finish s.negativeTtlCap req exchange with
      | .ok out =>
        some (s.moveTo id ⟨transport, req, .missed⟩ (.answered (sourceOf exchange answer) out))
      | .error _ => some (s.finish id [])
    | _ => none
  | .store id =>
    match s.calls.lookup id with
    | some ⟨transport, req, .answered source out⟩ =>
      let call : Call := ⟨transport, req, .answered source out⟩
      match out.directive with
      | .store bytes ttlOffsets expiry =>
        match s.cache.insert s.now req.query.question bytes ttlOffsets expiry with
        | .ok cache =>
          let origin := match source with
            | .forwarded response => s.origin.insert req.query.question response
            | _ => s.origin
          some ({ s with cache := cache, origin := origin }.moveTo id call
            (.replied source out.reply.bytes))
        | .error _ => some (s.finish id [])
      | .skip => some (s.moveTo id call (.replied source out.reply.bytes))
    | _ => none
  | .write id =>
    match s.calls.lookup id with
    | some ⟨transport, req, .replied source reply⟩ =>
      some (s.finish id (writeReply transport req source reply))
    | _ => none
  | .reject id rejection =>
    match s.calls.lookup id with
    | some ⟨transport, req, _⟩ => some (s.finish id (writeRejection transport req rejection))
    | none => none
  | .reconfigure resolver negativeTtlCap =>
    some { s with resolver := resolver, negativeTtlCap := negativeTtlCap }
  | .setTtlBounds minTtl maxTtl => some { s with cache := s.cache.setTtlBounds minTtl maxTtl }
  | .clear => some { s with cache := s.cache.clear }
  | .evict question => some { s with cache := s.cache.evict question }

/-! ### Policies -/

/-- The query of an accepted message. -/
def Parsed (query : Query) : Prop := Query.parse query.raw = .ok query

/-- What may be stored under a question, and what may be the reply to a query. -/
structure Policy where
  mayStore : Question → UpstreamResponse → List Nat → Prop
  mayReply : Transport → Query → Source → Bytes → Prop

namespace Policy

/-- The policy allows what the server makes of its own: synthesized replies, and
replies from entries it allows. -/
structure Sound (P : Policy) : Prop where
  built : ∀ {transport query rcode aa answers bytes}, Parsed query →
    Response.build query rcode aa answers (EdnsInfo.scan query) = .ok bytes →
    P.mayReply transport query .synthesized bytes
  truncated : ∀ {query bytes}, Parsed query →
    Response.truncated query (EdnsInfo.scan query) = .ok bytes →
    P.mayReply .udp query .synthesized bytes
  patched : ∀ {transport query response} {entry : CachedResponse} {secs}, Parsed query →
    entry.bytes = response.bytes → P.mayStore query.question response entry.ttlOffsets →
    P.mayReply transport query (.cached (some response)) (entry.patchedFor query.header.id secs)

/-- The policy allows what an upstream response is used for in this step. -/
def Admits (P : Policy) (s : State) : Event → Prop
  | .forward id (.ok (addr, response)) =>
    ∀ call, s.calls.lookup id = some call → Parsed call.req.query →
      P.mayReply call.transport call.req.query (.forwarded response)
        (withTxnId response.bytes call.req.query.header.id) ∧
      ∀ bytes ttlOffsets expiry,
        ForwardService.directive s.negativeTtlCap (UpstreamClient.forward addr response)
          = .store bytes ttlOffsets expiry →
        P.mayStore call.req.query.question response ttlOffsets
  | _ => True

/-- What the policy asks of a call. -/
def CallOk (P : Policy) (call : Call) : Prop :=
  Parsed call.req.query ∧ match call.phase with
    | .tagged | .missed => True
    | .answered source out =>
      P.mayReply call.transport call.req.query source out.reply.bytes ∧
      ∀ bytes ttlOffsets expiry, out.directive = .store bytes ttlOffsets expiry →
        ∃ response, source = .forwarded response ∧ bytes = response.bytes ∧
          P.mayStore call.req.query.question response ttlOffsets
    | .replied source reply => P.mayReply call.transport call.req.query source reply

/-- What the policy asks of a cache entry. -/
def EntryOk (P : Policy) (s : State) (key : Question) (e : ExpiringCache.Entry CachedResponse) :
    Prop :=
  ∃ response, s.origin.lookup key = some response ∧ e.value.bytes = response.bytes ∧
    P.mayStore key response e.value.ttlOffsets

/-- What the policy asks of a message written: a reply to a query, or the error
reply to a message that does not parse. -/
def SentOk (P : Policy) (m : Sent) : Prop :=
  match m.query with
  | some query => Parsed query ∧ P.mayReply m.transport query m.source m.message
  | none => m.source = .synthesized ∧
    ∃ id, m.message = Response.formerr id ∨ m.message = Response.notimp id

structure Lawful (P : Policy) (s : State) : Prop where
  entries : ExpiringCache.All (P.EntryOk s) s.cache.inner
  calls : ∀ id call, s.calls.lookup id = some call → P.CallOk call
  sent : ∀ m ∈ s.sent, P.SentOk m

variable {P : Policy} {s s' : State}

theorem lawful_initial (h : s.Initial) : P.Lawful s where
  entries := by
    rw [h.cache_eq]
    exact ExpiringCache.All.empty _
  calls := by
    intro id call hcall
    rw [h.calls_eq] at hcall
    cases hcall
  sent := by
    rw [h.sent_eq]
    simp

/-! ### What is written -/

theorem message_send {transport : Transport} {query : Option Query} {source : Source}
    {message : Bytes} {m : Sent} (h : m ∈ send transport query source message) :
    m.transport = transport ∧ m.query = query ∧ m.source = source ∧ m.message = message := by
  cases transport with
  | udp =>
    rw [send, List.mem_singleton] at h
    subst h
    exact ⟨rfl, rfl, rfl, rfl⟩
  | tcp =>
    rw [send, tryEncodeLengthPrefix] at h
    split_ifs at h with hlong
    · cases h
    · rw [List.mem_singleton] at h
      subst h
      exact ⟨rfl, rfl, rfl, rfl⟩
  | internal => cases h

theorem sentOk_send {transport : Transport} {query : Query} {source : Source} {message : Bytes}
    (hq : Parsed query) (hreply : P.mayReply transport query source message) :
    ∀ m ∈ send transport (some query) source message, P.SentOk m := by
  intro m hm
  obtain ⟨rfl, hquery, rfl, rfl⟩ := message_send hm
  rw [SentOk, hquery]
  exact ⟨hq, hreply⟩

theorem sentOk_writeReply (hP : P.Sound) {transport : Transport} {req : DnsRequest}
    {source : Source} {reply : Bytes} (hq : Parsed req.query)
    (hreply : P.mayReply transport req.query source reply) :
    ∀ m ∈ writeReply transport req source reply, P.SentOk m := by
  rw [writeReply]
  split_ifs with hlimit
  · obtain ⟨rfl, _⟩ := hlimit
    cases htc : Response.truncated req.query req.edns with
    | error p =>
      intro m hm
      cases hm
    | ok bytes =>
      rw [req.edns_eq] at htc
      exact sentOk_send hq (hP.truncated hq htc)
  · exact sentOk_send hq hreply

theorem sentOk_writeRejection (hP : P.Sound) {transport : Transport} {req : DnsRequest}
    (hq : Parsed req.query) (rejection : Rejection) :
    ∀ m ∈ writeRejection transport req rejection, P.SentOk m := by
  rw [writeRejection]
  cases hbuild : Response.errorResponse req.query rejection.rejectionPolicy.2 req.edns with
  | error p =>
    intro m hm
    cases hm
  | ok bytes =>
    rw [req.edns_eq] at hbuild
    exact sentOk_writeReply hP hq (hP.built hq hbuild)

theorem sentOk_writeReject (transport : Transport) (e : ParseError) :
    ∀ m ∈ writeReject transport e, P.SentOk m := by
  intro m hm
  rw [writeReject] at hm
  split at hm
  · cases hm
  · rename_i id _
    obtain ⟨_, hquery, hsource, hmessage⟩ := message_send hm
    rw [SentOk, hquery]
    exact ⟨hsource, id, Or.inl hmessage⟩
  · rename_i id _
    obtain ⟨_, hquery, hsource, hmessage⟩ := message_send hm
    rw [SentOk, hquery]
    exact ⟨hsource, id, Or.inr hmessage⟩

/-! ### The steps keep the policy -/

theorem Lawful.moveTo {id : Nat} {call : Call} {phase : Phase} (h : P.Lawful s)
    (hcall : P.CallOk { call with phase := phase }) : P.Lawful (s.moveTo id call phase) :=
  ⟨h.entries, ExpiringCache.forall_lookup_insert h.calls hcall, h.sent⟩

theorem Lawful.finish {written : List Sent} (h : P.Lawful s) (id : Nat)
    (hwritten : ∀ m ∈ written, P.SentOk m) : P.Lawful (s.finish id written) where
  entries := h.entries
  calls := ExpiringCache.forall_lookup_erase h.calls
  sent := by
    intro m hm
    rcases List.mem_append.mp hm with hm | hm
    · exact h.sent m hm
    · exact hwritten m hm

theorem lawful_receive {id : Nat} {transport : Transport} {raw : Bytes} {client : SocketAddr}
    {wall : Int64} (hP : P.Sound) (h : P.Lawful s)
    (hs : step s (.receive id transport raw client wall) = some s') : P.Lawful s' := by
  unfold step at hs
  dsimp only at hs
  split_ifs at hs with hid
  cases hparse : Query.parse raw with
  | error e =>
    rw [hparse, Option.some.injEq] at hs
    subst hs
    -- A message that is no query is answered at once, without a call.
    refine ⟨h.entries, h.calls, ?_⟩
    intro m hm
    rcases List.mem_append.mp hm with hm | hm
    · exact h.sent m hm
    · exact sentOk_writeReject transport e m hm
  | ok query =>
    have hq : Parsed query := by
      obtain ⟨rfl, _⟩ := Query.parse_ok hparse
      exact hparse
    simp only [hparse] at hs
    cases hpassed : DecisionStack.passedOn s.resolver wall (DnsRequest.new query client) with
    | some req =>
      simp only [hpassed, Option.some.injEq] at hs
      subst hs
      obtain ⟨hquery, _⟩ := DecisionStack.passedOn_spec hpassed
      exact ⟨h.entries, ExpiringCache.forall_lookup_insert h.calls ⟨hquery ▸ hq, trivial⟩, h.sent⟩
    | none =>
      simp only [hpassed] at hs
      cases hown : DecisionStack.ownReply s.resolver wall (DnsRequest.new query client) with
      | none =>
        simp only [hown, Option.some.injEq] at hs
        -- The stack failed to build its reply: nothing is sent.
        exact hs ▸ h
      | some reply =>
        simp only [hown, Option.some.injEq] at hs
        subst hs
        obtain ⟨rcode, aa, answers, hbuilt⟩ := DecisionStack.ownReply_built hown
        exact ⟨h.entries, ExpiringCache.forall_lookup_insert h.calls ⟨hq, hP.built hq hbuilt⟩, h.sent⟩

theorem lawful_lookup {id : Nat} (hP : P.Sound) (h : P.Lawful s)
    (hs : step s (.lookup id) = some s') : P.Lawful s' := by
  unfold step at hs
  dsimp only at hs
  split at hs
  · rename_i transport req hcall
    obtain ⟨hq, _⟩ := h.calls id _ hcall
    split at hs
    · -- The entry served is one the policy allows for this very question.
      rename_i bytes hget
      rw [Option.some.injEq] at hs
      subst hs
      obtain ⟨entry, hentry, rfl⟩ := DnsCache.get_eq_some.mp hget
      obtain ⟨e, hlookup, _, rfl⟩ := ExpiringCache.get_eq_some.mp hentry
      obtain ⟨response, horigin, hbytes, hstore⟩ := h.entries _ e hlookup
      refine h.moveTo ⟨hq, ?_⟩
      show P.mayReply transport req.query (.cached (s.origin.lookup req.query.question)) _
      rw [horigin]
      exact hP.patched hq hbytes hstore
    · rw [Option.some.injEq] at hs
      subst hs
      exact h.moveTo ⟨hq, trivial⟩
  · cases hs

theorem lawful_forward {id : Nat} {answer : Except UpstreamError (SocketAddr × UpstreamResponse)}
    (hP : P.Sound) (hadmits : P.Admits s (.forward id answer)) (h : P.Lawful s)
    (hs : step s (.forward id answer) = some s') : P.Lawful s' := by
  unfold step at hs
  dsimp only at hs
  split at hs
  · rename_i transport req hcall
    obtain ⟨hq, _⟩ := h.calls id _ hcall
    generalize hexchange : ForwardService.exchange s.resolver.forwardZones req
      (answer.map (fun p => UpstreamClient.forward p.1 p.2)) = exchange at hs
    cases exchange with
    | error e =>
      -- No upstream answered: SERVFAIL is built, and nothing is stored.
      rw [ForwardService.finish] at hs
      cases hbuild : Response.errorResponse req.query .servFail req.edns with
      | error p =>
        simp only [hbuild, Option.some.injEq] at hs
        exact hs ▸ h.finish id (by simp)
      | ok bytes =>
        simp only [hbuild, Option.some.injEq] at hs
        rw [req.edns_eq] at hbuild
        subst hs
        refine h.moveTo ⟨hq, ?_, ?_⟩
        · exact hP.built hq hbuild
        · intro b offs expiry hdir
          cases hdir
    | ok fr =>
      obtain ⟨addr, response, rfl, rfl⟩ : ∃ addr response, answer = .ok (addr, response) ∧
          fr = UpstreamClient.forward addr response := by
        rw [ForwardService.exchange] at hexchange
        have hmap : answer.map (fun p => UpstreamClient.forward p.1 p.2) = .ok fr := by
          split at hexchange
          · rw [ForwardZoneSet.forward] at hexchange
            split_ifs at hexchange
            exact hexchange
          · exact hexchange
        cases answer with
        | error e => cases hmap
        | ok p =>
          cases hmap
          exact ⟨p.1, p.2, rfl, rfl⟩
      rw [ForwardService.finish, Option.some.injEq] at hs
      subst hs
      obtain ⟨hreply, hstore⟩ := hadmits _ hcall hq
      refine h.moveTo ⟨hq, hreply, ?_⟩
      intro bytes ttlOffsets expiry hdir
      obtain ⟨rfl, _⟩ := ForwardService.directive_eq_store hdir
      exact ⟨response, rfl, rfl, hstore _ _ _ hdir⟩
  · cases hs

theorem lawful_store {id : Nat} (h : P.Lawful s) (hs : step s (.store id) = some s') :
    P.Lawful s' := by
  unfold step at hs
  dsimp only at hs
  split at hs
  · rename_i transport req source out hcall
    obtain ⟨hq, hreply, hstore⟩ := h.calls id _ hcall
    split at hs
    · rename_i bytes ttlOffsets expiry hdir
      split at hs
      · rename_i cache hinsert
        obtain ⟨response, rfl, rfl, hmay⟩ := hstore _ _ _ hdir
        rw [Option.some.injEq] at hs
        subst hs
        obtain ⟨clamped, _, rfl⟩ := DnsCache.insert_ok_iff.mp hinsert
        refine ⟨?_, ExpiringCache.forall_lookup_insert h.calls ⟨hq, hreply⟩, h.sent⟩
        -- The new entry has the response as its origin; the others keep theirs.
        intro key e hlookup
        by_cases hkey : key = req.query.question
        · subst hkey
          refine ⟨response, AList.lookup_insert _, ?_⟩
          rw [State.moveTo, ExpiringCache.lookup_insert, Option.some.injEq] at hlookup
          subst hlookup
          exact ⟨rfl, hmay⟩
        · rw [State.moveTo, ExpiringCache.lookup_insert_of_ne _ _ _ _ hkey] at hlookup
          obtain ⟨response', horigin, hrest⟩ := h.entries key e hlookup
          exact ⟨response', (AList.lookup_insert_ne hkey).trans horigin, hrest⟩
      · rw [Option.some.injEq] at hs
        exact hs ▸ h.finish id (by simp)
    · rw [Option.some.injEq] at hs
      subst hs
      exact h.moveTo ⟨hq, hreply⟩
  · cases hs

/-- One step keeps a sound policy that admits it. -/
theorem lawful_step {e : Event} (hP : P.Sound) (h : P.Lawful s) (hadmits : P.Admits s e)
    (hs : step s e = some s') : P.Lawful s' := by
  cases e with
  | advance d =>
    cases hs
    exact ⟨h.entries, h.calls, h.sent⟩
  | receive id transport raw client wall => exact lawful_receive hP h hs
  | lookup id => exact lawful_lookup hP h hs
  | forward id answer => exact lawful_forward hP hadmits h hs
  | store id => exact lawful_store h hs
  | write id =>
    unfold step at hs
    dsimp only at hs
    split at hs
    · rename_i transport req source reply hcall
      obtain ⟨hq, hreply⟩ := h.calls id _ hcall
      rw [Option.some.injEq] at hs
      subst hs
      exact h.finish id (sentOk_writeReply hP hq hreply)
    · cases hs
  | reject id rejection =>
    unfold step at hs
    dsimp only at hs
    split at hs
    · rename_i transport req phase hcall
      obtain ⟨hq, _⟩ := h.calls id _ hcall
      rw [Option.some.injEq] at hs
      subst hs
      -- A rejection is built from the query of the call, whatever phase it is in.
      exact h.finish id (sentOk_writeRejection hP hq rejection)
    · cases hs
  | reconfigure resolver negativeTtlCap =>
    cases hs
    -- New lists and records reach the calls that come, not those under way.
    exact ⟨h.entries, h.calls, h.sent⟩
  | setTtlBounds minTtl maxTtl =>
    cases hs
    exact ⟨h.entries, h.calls, h.sent⟩
  | clear =>
    cases hs
    exact ⟨ExpiringCache.All.empty _, h.calls, h.sent⟩
  | evict question =>
    cases hs
    exact ⟨h.entries.evict question, h.calls, h.sent⟩

/-- **The invariant rule.**  A sound policy that admits every upstream response
of a run holds of all the run stores and writes. -/
theorem lawful_run {es : List Event} (hP : P.Sound) (hinit : s.Initial)
    (halong : Transition.Along step P.Admits s es) (hrun : Transition.run step s es = some s') :
    P.Lawful s' :=
  Transition.run_invariant_along (fun h hadmits hs => lawful_step hP h hadmits hs)
    (lawful_initial hinit) halong hrun

end Policy

/-! ### A server at startup -/

/-- No lists, no zones, nothing cached. -/
def startState : State where
  resolver := ⟨∅, ∅, ∅, LocalRecordsBuilder.new.build, .nxDomain, ForwardZoneSet.empty, 0⟩
  negativeTtlCap := 3600
  cache := DnsCache.new 1 86400
  now := 0
  calls := ∅
  origin := ∅
  sent := []

theorem startState_initial : startState.Initial := ⟨rfl, rfl, rfl⟩

/-- A message is answered from an upstream response. -/
def answeredBy (id : Nat) (transport : Transport) (raw : Bytes) (response : UpstreamResponse) :
    List Event :=
  [.receive id transport raw (.v4 ⟨10, 0, 0, 2⟩ 5353) 0, .lookup id,
    .forward id (.ok (.v4 ⟨1, 1, 1, 1⟩ 53, response)), .store id, .write id]

/-- A message is answered from the cache. -/
def answeredFromCache (id : Nat) (transport : Transport) (raw : Bytes) : List Event :=
  [.receive id transport raw (.v4 ⟨10, 0, 0, 3⟩ 5353) 0, .lookup id, .write id]

end Listener

end Resolver

/-
The cache-store policy, and to whom a reply is addressed.

What the forward service tells the cache to do is a function of the scan of the
upstream bytes, of whether the answer is negative, and of its negative TTL.  The
stored bytes are shared by all clients: each hit writes its own id and takes the
time off the TTLs, while the reply of the miss is another copy.

* `ForwardService.directive_eq_store_iff` — what is stored, and for how long;
* `attributed_run` — what is written answers a message that was received;
* `addressing_sound`, `addressing_admits` — the policy of replies that start with
  the client's id and promise no more than the upstream did;
* `store_policy_and_addressing` — both, over every run.
-/
import Sagittarius.QueryParse
import Sagittarius.PatchFrame

open BigEndian Codec

namespace Resolver

/-! ### The cache-store policy -/

namespace ForwardService

/-- What is stored, and for how long. -/
theorem directive_eq_store_iff {negativeTtlCap : UInt32} {fr : ForwardResult} {bytes : Bytes}
    {ttlOffsets : List Nat} {expiry : UInt32} :
    directive negativeTtlCap fr = .store bytes ttlOffsets expiry ↔
      ∃ scan, TtlScan.scan fr.bytes = .ok scan ∧ bytes = fr.bytes ∧
        ttlOffsets = scan.ttlOffsets ∧
        if fr.isNegative then ∃ t, fr.negativeTtl = some t ∧ expiry = min t negativeTtlCap
        else scan.minTtl = some expiry := by
  rw [directive]
  cases TtlScan.scan fr.bytes with
  | error e => simp
  | ok scan =>
    simp only [Except.ok.injEq, exists_eq_left']
    cases hneg : fr.isNegative with
    | true =>
      cases fr.negativeTtl with
      | none => simp
      | some t =>
        simp only [if_true, Option.map_some, CacheDirective.store.injEq, Option.some.injEq,
          exists_eq_left']
        rw [eq_comm, @eq_comm _ _ ttlOffsets, @eq_comm _ _ expiry]
    | false =>
      cases scan.minTtl with
      | none => simp
      | some t =>
        simp only [Bool.false_eq_true, if_false, CacheDirective.store.injEq, Option.some.injEq]
        rw [eq_comm, @eq_comm _ _ ttlOffsets]

theorem minTtl_isSome_iff {m : Bytes} {scan : TtlScan} (hs : TtlScan.scan m = .ok scan) :
    scan.minTtl.isSome = true ↔ CarriesTtl m := by
  obtain ⟨rrs, r', hwalk, rfl⟩ := TtlScan.scan_ok_iff.mp hs
  rw [TtlScan.foldl_add_minTtl_isSome]
  constructor
  · rintro (hnone | hrr)
    · cases hnone
    · exact ⟨rrs, r', hwalk, hrr⟩
  · rintro ⟨rrs', r'', hwalk', hrr⟩
    rw [hwalk, EStateM.Result.ok.injEq] at hwalk'
    exact .inr (hwalk'.1 ▸ hrr)

/-- There is a lifetime for an answer that scans, and has a negative TTL or
carries a TTL, as its kind asks. -/
theorem storable_iff {fr : ForwardResult} : Storable fr ↔
    (∃ scan, TtlScan.scan fr.bytes = .ok scan) ∧
      ((fr.isNegative = true ∧ fr.negativeTtl.isSome = true) ∨
        (fr.isNegative = false ∧ CarriesTtl fr.bytes)) := by
  have hscan : (∃ scan, TtlScan.scan fr.bytes = .ok scan) ↔
      ∃ rrs r', Rr.walk (Reader.new fr.bytes) = .ok rrs r' := by
    simp only [TtlScan.scan_ok_iff]
    constructor
    · rintro ⟨_, rrs, r', h, _⟩
      exact ⟨rrs, r', h⟩
    · rintro ⟨rrs, r', h⟩
      exact ⟨_, rrs, r', h, rfl⟩
  rw [hscan]
  cases hneg : fr.isNegative with
  | true =>
    simp only [Storable, hneg, if_true, true_and, Bool.true_eq_false, false_and, or_false]
    constructor
    · rintro ⟨rrs, r', h, httl⟩
      exact ⟨⟨rrs, r', h⟩, httl⟩
    · rintro ⟨⟨rrs, r', h⟩, httl⟩
      exact ⟨rrs, r', h, httl⟩
  | false =>
    rw [storable_iff_carriesTtl hneg]
    simp only [Bool.false_eq_true, false_and, true_and, false_or]
    constructor
    · intro hcarries
      obtain ⟨rrs, r', hwalk, -⟩ := id hcarries
      exact ⟨⟨rrs, r', hwalk⟩, hcarries⟩
    · rintro ⟨-, hcarries⟩
      exact hcarries

/-- An upstream that fails leaves nothing to store. -/
theorem directive_of_error {negativeTtlCap : UInt32} {req : DnsRequest} {err : UpstreamError}
    {out : ForwardOutput} (h : finish negativeTtlCap req (.error err) = .ok out) :
    out.directive = .skip := by
  rw [finish] at h
  split at h
  · cases h
    rfl
  · cases h

end ForwardService

namespace Listener

/-! ### What is written answers a message -/

/-- The message came in over the transport. -/
def ReceivedIn (es : List Event) (transport : Transport) (raw : Bytes) : Prop :=
  ∃ id client wall, Event.receive id transport raw client wall ∈ es

/-- What is written answers a message received: the query parsed from it, or the
message itself if it does not parse. -/
structure Attributed (es : List Event) (s : State) : Prop where
  calls : ∀ id call, s.calls.lookup id = some call →
    ReceivedIn es call.transport call.req.query.raw
  sent : ∀ m ∈ s.sent, ∃ raw, ReceivedIn es m.transport raw ∧
    match m.query with
    | some query => query.raw = raw
    | none => m.message.take 2 = raw.take 2

theorem mem_writeReply {transport : Transport} {req : DnsRequest} {source : Source} {reply : Bytes}
    {m : Sent} (hm : m ∈ writeReply transport req source reply) :
    m.transport = transport ∧ m.query = some req.query := by
  rw [writeReply] at hm
  split_ifs at hm with hlimit
  · cases htc : Response.truncated req.query req.edns with
    | error p =>
      rw [htc] at hm
      cases hm
    | ok bytes =>
      rw [htc] at hm
      exact ⟨(Policy.message_send hm).1, (Policy.message_send hm).2.1⟩
  · exact ⟨(Policy.message_send hm).1, (Policy.message_send hm).2.1⟩

theorem mem_writeRejection {transport : Transport} {req : DnsRequest} {rejection : Rejection}
    {m : Sent} (hm : m ∈ writeRejection transport req rejection) :
    m.transport = transport ∧ m.query = some req.query := by
  rw [writeRejection] at hm
  split at hm
  · exact mem_writeReply hm
  · cases hm

theorem mem_writeReject {transport : Transport} {raw : Bytes} {e : ParseError}
    (he : Query.parse raw = .error e) {m : Sent} (hm : m ∈ writeReject transport e) :
    m.transport = transport ∧ m.query = none ∧ m.message.take 2 = raw.take 2 := by
  obtain ⟨htransport, hquery⟩ : m.transport = transport ∧ m.query = none := by
    rw [writeReject] at hm
    split at hm
    · cases hm
    · exact ⟨(Policy.message_send hm).1, (Policy.message_send hm).2.1⟩
    · exact ⟨(Policy.message_send hm).1, (Policy.message_send hm).2.1⟩
  refine ⟨htransport, hquery, ?_⟩
  obtain ⟨id, hact, hpre⟩ := writeReject_id hm
  have hid := Query.parse_error_id he
  rw [Query.rejectAction_id hact] at hid
  split_ifs at hid with hlen
  obtain rfl := Option.some_inj.mp hid
  have htake : raw.take 2 = be16 (messageId raw) := (be16_messageId (by omega)).symm
  rw [htake]
  exact (List.prefix_iff_eq_take.mp hpre).symm

section Attribution

variable {es : List Event} {s s' : State} {id : Nat} {call : Call}

theorem Attributed.moveTo (h : Attributed es s) (hcall : s.calls.lookup id = some call)
    (phase : Phase) : Attributed es (s.moveTo id call phase) :=
  ⟨ExpiringCache.forall_lookup_insert h.calls (h.calls id call hcall), h.sent⟩

theorem Attributed.finish (h : Attributed es s) (hcall : s.calls.lookup id = some call)
    {written : List Sent} (hwritten : ∀ m ∈ written,
      m.transport = call.transport ∧ m.query = some call.req.query) :
    Attributed es (s.finish id written) := by
  refine ⟨ExpiringCache.forall_lookup_erase h.calls, ?_⟩
  intro m hm
  rcases List.mem_append.mp hm with hm | hm
  · exact h.sent m hm
  · obtain ⟨htransport, hquery⟩ := hwritten m hm
    refine ⟨call.req.query.raw, htransport ▸ h.calls id call hcall, ?_⟩
    rw [hquery]

theorem attributed_receive {transport : Transport} {raw : Bytes} {client : SocketAddr}
    {wall : Int64} (h : Attributed es s) (hmem : .receive id transport raw client wall ∈ es)
    (hs : step s (.receive id transport raw client wall) = some s') : Attributed es s' := by
  have hraw : ReceivedIn es transport raw := ⟨id, client, wall, hmem⟩
  rw [step] at hs
  split_ifs at hs with hid
  cases hparse : Query.parse raw with
  | error e =>
    rw [hparse, Option.some.injEq] at hs
    subst hs
    refine ⟨h.calls, ?_⟩
    intro m hm
    rcases List.mem_append.mp hm with hm | hm
    · exact h.sent m hm
    · obtain ⟨htransport, hquery, htake⟩ := mem_writeReject hparse hm
      refine ⟨raw, htransport ▸ hraw, ?_⟩
      rw [hquery]
      exact htake
  | ok query =>
    -- The call is opened with the parsed query, which keeps the bytes received.
    have hquery := (Query.parse_ok hparse).1
    simp only [hparse] at hs
    cases hpassed : DecisionStack.passedOn s.resolver wall (DnsRequest.new query client) with
    | some req =>
      simp only [hpassed, Option.some.injEq] at hs
      subst hs
      obtain ⟨rfl, _⟩ := DecisionStack.passedOn_spec hpassed
      exact ⟨ExpiringCache.forall_lookup_insert h.calls (hquery ▸ hraw), h.sent⟩
    | none =>
      simp only [hpassed] at hs
      cases hown : DecisionStack.ownReply s.resolver wall (DnsRequest.new query client) with
      | none =>
        simp only [hown, Option.some.injEq] at hs
        exact hs ▸ h
      | some reply =>
        simp only [hown, Option.some.injEq] at hs
        subst hs
        exact ⟨ExpiringCache.forall_lookup_insert h.calls (hquery ▸ hraw), h.sent⟩

/-- A step answers what was received, and takes in what it receives. -/
theorem attributed_step {e : Event} (h : Attributed es s) (hmem : e ∈ es)
    (hs : step s e = some s') : Attributed es s' := by
  cases e with
  | receive id transport raw client wall => exact attributed_receive h hmem hs
  | lookup id =>
    rw [step] at hs
    split at hs
    · rename_i hcall
      split at hs
      · cases hs
        exact h.moveTo hcall _
      · cases hs
        exact h.moveTo hcall _
    · cases hs
  | forward id answer =>
    rw [step] at hs
    split at hs
    · rename_i hcall
      simp only at hs
      split at hs
      · cases hs
        exact h.moveTo hcall _
      · cases hs
        exact h.finish hcall (by simp)
    · cases hs
  | store id =>
    rw [step] at hs
    split at hs
    · rename_i hcall
      simp only at hs
      split at hs
      · split at hs
        · have hraw := h.calls id _ hcall
          cases hs
          exact ⟨ExpiringCache.forall_lookup_insert h.calls hraw, h.sent⟩
        · cases hs
          exact h.finish hcall (by simp)
      · cases hs
        exact h.moveTo hcall _
    · cases hs
  | write id =>
    rw [step] at hs
    split at hs
    · rename_i hcall
      cases hs
      exact h.finish hcall (fun m hm => mem_writeReply hm)
    · cases hs
  | reject id rejection =>
    rw [step] at hs
    split at hs
    · rename_i hcall
      cases hs
      exact h.finish hcall (fun m hm => mem_writeRejection hm)
    · cases hs
  -- The clock, the settings and the cache have no part in who is answered.
  | advance d | reconfigure _ _ | setTtlBounds _ _ | clear | evict _ =>
    rw [step, Option.some.injEq] at hs
    subst hs
    exact ⟨h.calls, h.sent⟩

/-- In every run, what is written answers a message of the run. -/
theorem attributed_run (hinit : s.Initial) (hrun : Transition.run step s es = some s') :
    Attributed es s' := by
  have halong : Transition.Along step (fun _ e => e ∈ es) s es :=
    Transition.Along.of_forall (fun e he _ => he)
  refine Transition.run_invariant_along (fun h hmem hs => attributed_step h hmem hs) ?_ halong hrun
  refine ⟨?_, ?_⟩
  · intro id call hcall
    rw [hinit.calls_eq] at hcall
    cases hcall
  · rw [hinit.sent_eq]
    simp

end Attribution

/-! ### The policy -/

/-- The upstream response a reply comes from, if any. -/
def Source.response : Source → Option UpstreamResponse
  | .synthesized => none
  | .forwarded response => some response
  | .cached response => response

/-- The response is one that an upstream sent. -/
def SentBy (es : List Event) (response : UpstreamResponse) : Prop :=
  ∃ id addr, Event.forward id (.ok (addr, response)) ∈ es

/-- No TTL of the message is above that of the upstream's. -/
def TtlsAtMost (upstream message : Bytes) : Prop :=
  ∀ scan, TtlScan.scan upstream = .ok scan →
    ∀ o ∈ scan.ttlOffsets, u32At message o ≤ u32At upstream o

/-- Replies start with the id of the query, and promise no more than the upstream
they come from; what is stored has the offsets of its scan. -/
def addressing (es : List Event) : Policy where
  mayStore := fun _ response ttlOffsets => SentBy es response ∧
    ∃ scan, TtlScan.scan response.bytes = .ok scan ∧ ttlOffsets = scan.ttlOffsets
  mayReply := fun _ query source bytes =>
    (2 ≤ bytes.length → be16 query.header.id <+: bytes) ∧ source ≠ .cached none ∧
    ∀ response, source.response = some response →
      SentBy es response ∧ bytes.length = response.bytes.length ∧ TtlsAtMost response.bytes bytes

theorem saturatingSub_le (a b : UInt32) : saturatingSub a b ≤ a := by
  rw [saturatingSub]
  split_ifs with h
  · rw [UInt32.le_iff_toNat_le, UInt32.toNat_sub_of_le _ _ h]
    omega
  · rw [UInt32.le_iff_toNat_le]
    exact Nat.zero_le _

theorem withTxnId_length (bytes : Bytes) (id : UInt16) :
    (withTxnId bytes id).length = bytes.length := by
  rw [withTxnId]
  split_ifs with hshort
  · rfl
  · rw [List.length_append, be16_length, List.length_drop]
    omega

/-- The new id does not reach the TTLs of a forwarded reply. -/
theorem ttlsAtMost_withTxnId (bytes : Bytes) (id : UInt16) :
    TtlsAtMost bytes (withTxnId bytes id) := by
  intro scan hscan o ho
  have hle := (scan_offsets hscan).2 o ho
  have hsame : u32At (withTxnId bytes id) o = u32At bytes o := by
    rw [withTxnId, if_neg (by omega)]
    refine u32At_congr (fun k _ => ?_)
    rw [List.getElem?_append_right (by rw [be16_length]; omega), List.getElem?_drop, be16_length]
    congr 1
    omega
  rw [hsame]
  exact UInt32.le_refl _

theorem addressing_sound (es : List Event) : (addressing es).Sound where
  built := by
    intro _ query rcode aa answers bytes _ hbuild
    rw [Response.build_eq (fun e => EdnsInfo.scan_valid), Except.ok.injEq] at hbuild
    have hid : (Response.buildHeader query rcode aa answers (EdnsInfo.scan query)).id
        = query.header.id := by
      cases aa with
      | true => rfl
      | false => rfl
    refine ⟨fun _ => ?_, by simp, by simp [Source.response]⟩
    rw [← hbuild, ← hid, Header.bytes, List.append_assoc]
    exact List.prefix_append _ _
  truncated := by
    intro query bytes _ hbuild
    rw [Response.truncated, Response.buildTc_eq (fun e => EdnsInfo.scan_valid),
      Except.ok.injEq] at hbuild
    refine ⟨fun _ => ?_, by simp, by simp [Source.response]⟩
    rw [← hbuild, ← (Response.tcHeader_spec query (EdnsInfo.scan query)).id, Header.bytes,
      List.append_assoc]
    exact List.prefix_append _ _
  patched := by
    rintro _ query response entry secs _ hbytes ⟨hsent, scan, hscan, hoff⟩
    rw [← hbytes] at hscan
    -- The stored bytes still scan, so the patch has its frame.
    have hpatch := patched_of_scan hscan hoff query.header.id secs
    refine ⟨fun _ => ?_, by simp, ?_⟩
    · rw [← hpatch.id_eq]
      exact List.take_prefix _ _
    · intro response' hresponse
      obtain rfl := Option.some_inj.mp hresponse
      refine ⟨hsent, hbytes ▸ hpatch.length_eq, ?_⟩
      intro scan' hscan' o ho
      rw [← hbytes, hscan, Except.ok.injEq] at hscan'
      rw [← hbytes, hpatch.ttl_eq o (hscan' ▸ ho)]
      exact saturatingSub_le _ _

theorem addressing_admits {es : List Event} {s : State} {e : Event} (he : e ∈ es) :
    (addressing es).Admits s e := by
  cases e with
  | forward id answer =>
    cases answer with
    | error err => trivial
    | ok p =>
      obtain ⟨addr, response⟩ := p
      intro call _ _
      have hsent : SentBy es response := ⟨id, addr, he⟩
      refine ⟨⟨?_, by simp, ?_⟩, ?_⟩
      · intro hlen
        rw [withTxnId] at hlen ⊢
        -- A message of less than two bytes has no id to write, and none to read.
        split_ifs at hlen ⊢ with hshort
        · omega
        · exact List.prefix_append _ _
      · intro response' hresponse
        obtain rfl := Option.some_inj.mp hresponse
        exact ⟨hsent, withTxnId_length _ _, ttlsAtMost_withTxnId _ _⟩
      · intro bytes ttlOffsets expiry hdir
        obtain ⟨scan, hscan, -, hoff, -⟩ := ForwardService.directive_eq_store_iff.mp hdir
        exact ⟨hsent, scan, hscan, hoff⟩
  | _ => trivial

/-- **Cache-store policy and addressing.**  An answer is stored for its capped
negative TTL exactly if it scans, is negative and has one; for its least TTL
exactly if it scans, is not negative and some record is no OPT; otherwise it is
not stored, and nor is a failure.  In every run, each message written answers one
that was received, starts with that message's own id, and has no TTL above the
one an upstream sent for the record. -/
theorem store_policy_and_addressing (s s' : State) (es : List Event) (hinit : s.Initial)
    (hrun : Transition.run step s es = some s') :
    (∀ negativeTtlCap fr,
      (∀ bytes ttlOffsets expiry,
        ForwardService.directive negativeTtlCap fr = .store bytes ttlOffsets expiry ↔
          ∃ scan, TtlScan.scan fr.bytes = .ok scan ∧ bytes = fr.bytes ∧
            ttlOffsets = scan.ttlOffsets ∧
            ((fr.isNegative = true ∧ ∃ t, fr.negativeTtl = some t ∧ expiry = min t negativeTtlCap) ∨
              (fr.isNegative = false ∧ ForwardService.CarriesTtl fr.bytes ∧
                scan.minTtl = some expiry))) ∧
      (ForwardService.directive negativeTtlCap fr = .skip ↔
        ¬ ((∃ scan, TtlScan.scan fr.bytes = .ok scan) ∧
          ((fr.isNegative = true ∧ fr.negativeTtl.isSome = true) ∨
            (fr.isNegative = false ∧ ForwardService.CarriesTtl fr.bytes)))) ∧
      (∀ req out, ForwardService.finish negativeTtlCap req (.ok fr) = .ok out →
        out.directive = ForwardService.directive negativeTtlCap fr) ∧
      (∀ req err out, ForwardService.finish negativeTtlCap req (.error err) = .ok out →
        out.directive = .skip)) ∧
    ∀ m ∈ s'.sent,
      (∃ raw, ReceivedIn es m.transport raw ∧ (∀ query, m.query = some query → query.raw = raw) ∧
        (2 ≤ m.message.length → m.message.take 2 = raw.take 2)) ∧
      m.source ≠ .cached none ∧
      ∀ response, m.source.response = some response →
        SentBy es response ∧ m.message.length = response.bytes.length ∧
        ∀ scan, TtlScan.scan response.bytes = .ok scan →
          ∀ o ∈ scan.ttlOffsets, u32At m.message o ≤ u32At response.bytes o := by
  constructor
  · intro negativeTtlCap fr
    refine ⟨?_, ?_, ?_, fun _ _ _ h => ForwardService.directive_of_error h⟩
    · intro bytes ttlOffsets expiry
      rw [ForwardService.directive_eq_store_iff]
      refine exists_congr fun scan => and_congr_right fun hscan => and_congr_right fun _ =>
        and_congr_right fun _ => ?_
      cases hneg : fr.isNegative with
      | true => simp
      | false =>
        simp only [Bool.false_eq_true, if_false, false_and, true_and, false_or]
        refine ⟨fun h => ⟨?_, h⟩, fun h => h.2⟩
        exact (ForwardService.minTtl_isSome_iff hscan).mp (by rw [h]; rfl)
    · rw [ForwardService.directive_eq_skip_iff, ForwardService.storable_iff]
    · intro req out h
      cases h
      rfl
  · have halong : Transition.Along step (fun _ e => e ∈ es) s es :=
      Transition.Along.of_forall (fun e he _ => he)
    have hlawful := Policy.lawful_run (addressing_sound es) hinit
      (halong.mono (fun _ _ h => addressing_admits h)) hrun
    have hattributed := attributed_run hinit hrun
    intro m hm
    have hsent := hlawful.sent m hm
    obtain ⟨raw, hraw, hquery⟩ := hattributed.sent m hm
    cases hm' : m.query with
    | none =>
      -- What does not parse is answered with a synthesized error.
      rw [hm'] at hquery
      rw [Policy.SentOk, hm'] at hsent
      rw [hsent.1]
      refine ⟨⟨raw, hraw, ?_, fun _ => hquery⟩, ?_, ?_⟩
      · rintro _ ⟨⟩
      · rintro ⟨⟩
      · rintro _ ⟨⟩
    | some query =>
      rw [hm'] at hquery
      rw [Policy.SentOk, hm'] at hsent
      obtain ⟨hparsed, hid, hsource, hresponse⟩ := hsent
      refine ⟨⟨raw, hraw, fun q hq => Option.some_inj.mp hq ▸ hquery, ?_⟩, hsource, hresponse⟩
      intro hlen
      obtain ⟨_, _, _, _, _, _, _, hbytes, _⟩ := Query.parse_ok hparsed
      have htake : query.raw.take 2 = be16 query.header.id := by
        rw [hbytes, Header.bytes, List.append_assoc]
        exact List.take_left' (be16_length _)
      rw [← hquery, htake]
      exact (List.prefix_iff_eq_take.mp (hid hlen)).symm

/-- The first two bytes of what was written. -/
def State.ids (s : State) : List Bytes := s.sent.map (fun m => m.message.take 2)

/-- One client is answered from an upstream and the next from the cache. -/
theorem store_policy_and_addressing_miss_then_hit :
    startState.Initial ∧
    ∃ s, Transition.run step startState (missThenHit 97) = some s ∧
      s.ids = [[0xAB, 0xCD], [0xAB, 0xCD]] ∧
      ∀ m ∈ s.sent, ∃ raw, ReceivedIn (missThenHit 97) m.transport raw ∧
        (∀ query, m.query = some query → query.raw = raw) ∧
        (2 ≤ m.message.length → m.message.take 2 = raw.take 2) := by
  have hids : (Transition.run step startState (missThenHit 97)).map State.ids
      = some [[0xAB, 0xCD], [0xAB, 0xCD]] := by
    decide
  obtain ⟨s, hrun, hs⟩ := Option.map_eq_some_iff.mp hids
  refine ⟨startState_initial, s, hrun, hs, ?_⟩
  intro m hm
  exact ((store_policy_and_addressing startState s _ startState_initial hrun).2 m hm).1

end Listener

end Resolver

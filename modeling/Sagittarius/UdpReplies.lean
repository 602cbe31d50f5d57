/-
Replies over UDP (`ServeLoop::handle_datagram`).

A reply that is too long for the client is replaced by a truncated one, and that is
not measured again.

* `handleDatagram_written` — what `handle_datagram` sends is what the server model
  writes;
* `truncated_eq` — the truncated reply: its header, the client's question and the OPT
  record, 326 bytes at most;
* `udp_reply_fits` — what is sent fits the client's limit.
-/
import Sagittarius.QueryParse
import Sagittarius.Truncation

open BigEndian Codec

namespace Resolver

namespace Listener

/-! ### One datagram -/

/-- `ServeLoop::run_service`, from what the service returned. -/
def runService (req : DnsRequest) : Except Rejection Bytes → Except Panic Bytes
  | .ok bytes => .ok bytes
  | .error rejection =>
    Response.errorResponse req.query rejection.rejectionPolicy.2 req.edns

/-- `ServeLoop::handle_datagram`: the datagram sent back, if one is. -/
def handleDatagram (service : DnsRequest → Except Rejection Bytes) (raw : Bytes)
    (peer : SocketAddr) : Except Panic (Option Bytes) :=
  match Query.parse raw with
  | .error e =>
    match e.rejectAction with
    | .drop => .ok none
    | .formErr id => .ok (some (Response.formerr id))
    | .notImp id => .ok (some (Response.notimp id))
  | .ok query => do
    let req := DnsRequest.new query peer
    let reply ← runService req (service req)
    if reply.length > udpReplyLimit req.edns then
      let bytes ← Response.truncated req.query req.edns
      pure (some bytes)
    else pure (some reply)

/-- What the server model writes for a request that its service answered. -/
def writeAnswer (transport : Transport) (req : DnsRequest) (source : Source) :
    Except Rejection Bytes → List Sent
  | .ok reply => writeReply transport req source reply
  | .error rejection => writeRejection transport req rejection

/-- `handle_datagram` sends what the server model writes. -/
theorem handleDatagram_written (service : DnsRequest → Except Rejection Bytes) (raw : Bytes)
    (peer : SocketAddr) (source : Source) :
    (match Query.parse raw with
      | .error e => writeReject .udp e
      | .ok query =>
        writeAnswer .udp (DnsRequest.new query peer) source
          (service (DnsRequest.new query peer))).map Sent.bytes
      = ((handleDatagram service raw peer).toOption.bind id).toList := by
  rw [handleDatagram]
  cases Query.parse raw with
  | error e =>
    simp only [writeReject]
    cases e.rejectAction <;> rfl
  | ok query =>
    simp only
    generalize DnsRequest.new query peer = req
    cases service req with
    | ok reply =>
      simp only [writeAnswer, writeReply, runService, bind, Except.bind, true_and]
      split_ifs with hlong
      · cases Response.truncated req.query req.edns <;> rfl
      · rfl
    | error rejection =>
      simp only [writeAnswer, writeRejection, runService, bind, Except.bind]
      cases Response.errorResponse req.query rejection.rejectionPolicy.2 req.edns with
      | error p => rfl
      | ok reply =>
        simp only [writeReply, true_and]
        split_ifs with hlong
        · cases Response.truncated req.query req.edns <;> rfl
        · rfl

/-! ### The limit and the lengths -/

theorem udpReplyLimit_bounds (edns : Option EdnsInfo) :
    512 ≤ udpReplyLimit edns ∧ udpReplyLimit edns ≤ 1232 := by
  cases edns with
  | none =>
    simp only [udpReplyLimit, UDP_DEFAULT_LIMIT, UDP_MAX_LIMIT]
    omega
  | some e =>
    simp only [udpReplyLimit, UDP_DEFAULT_LIMIT, UDP_MAX_LIMIT]
    omega

/-- A question is a name and four bytes. -/
theorem questionWire_length_le {query : Query} (h : Parsed query) :
    query.questionWire.length ≤ 259 := by
  obtain ⟨ls, qtype, qclass, hls, -, hwire, -⟩ := Query.questionWire_eq h
  have hname := hls.wireLen_le
  rw [MAX_NAME_WIRE_LEN] at hname
  rw [hwire, Question.bytes_length]
  omega

/-- An OPT record with the longest cookie that is kept. -/
theorem optBytes_length_le {edns : Option EdnsInfo} (h : ∀ e, edns = some e → e.Valid) :
    (Response.optBytes edns).length ≤ 55 := by
  cases edns with
  | none => simp [Response.optBytes]
  | some e =>
    have hdata : (Response.optRdata e.cookie).length ≤ 44 := by
      cases hcookie : e.cookie with
      | none => simp [Response.optRdata]
      | some cookie =>
        have := EdnsInfo.le_of_validCookieLen (h e rfl cookie hcookie)
        simp only [Response.optRdata, List.length_append, be16_length]
        omega
    rw [Response.optBytes, List.length_cons, Rr.body_length]
    omega

theorem optBytes_scan_length_le (query : Query) :
    (Response.optBytes (EdnsInfo.scan query)).length ≤ 55 :=
  optBytes_length_le (fun _ => EdnsInfo.scan_valid)

/-- **The truncated reply**: TC is set, the id and the question are the client's, and
its length does not depend on what it replaces. -/
theorem truncated_eq {raw : Bytes} {query : Query} (hq : Query.parse raw = .ok query) :
    ∃ bytes, Response.truncated query (EdnsInfo.scan query) = .ok bytes ∧ tcBit bytes = true ∧
      bytes.take 2 = raw.take 2 ∧ query.EchoedBy bytes ∧ bytes.length ≤ 326 := by
  have hparsed := Query.parse_raw hq
  have hlen := Header.bytes_length (Response.tcHeader query (EdnsInfo.scan query))
  have hspec := Response.tcHeader_spec query (EdnsInfo.scan query)
  have htc : (Response.tcHeader query (EdnsInfo.scan query)).tc = true := by
    have bits : ∀ rd : Bool, ((((((Header.new 0).withQr true).withTc true).withRd rd).withRa
        true).withRcode .noError).tc = true := by
      decide
    exact bits query.header.rd
  refine ⟨_, by rw [Response.truncated, Response.buildTc_eq (fun _ => EdnsInfo.scan_valid)],
    ?_, ?_, echoedBy_copy hparsed _ _, ?_⟩
  · refine tcBit_eq_true_iff.mpr ⟨_, ?_, htc⟩
    rw [← hlen, List.take_left]
  · obtain ⟨-, -, ls, qtype, qclass, rest, -, hraw, -⟩ := Query.parse_ok hq
    rw [hraw]
    show be16 (Response.tcHeader query _).id = be16 query.header.id
    rw [hspec.id]
  · have hquestion := questionWire_length_le hparsed
    have hopt := optBytes_scan_length_le query
    rw [List.length_append, List.length_append, hlen]
    omega

/-- The reply of `run_service` is always built. -/
theorem runService_ok (query : Query) (peer : SocketAddr) (answer : Except Rejection Bytes) :
    ∃ reply, runService (DnsRequest.new query peer) answer = .ok reply := by
  cases answer with
  | ok bytes => exact ⟨bytes, rfl⟩
  | error rejection => exact ⟨_, Response.build_eq (fun _ => EdnsInfo.scan_valid) _ _ _⟩

/-- **A reply over UDP fits.**  Whatever the service returned, one datagram is sent.  It
is no longer than the limit, which lies between 512 and 1232 bytes, and it is the
reply itself or a truncated one with the client's id and question, 512 bytes at most. -/
theorem udp_reply_fits {raw : Bytes} {query : Query} (hq : Query.parse raw = .ok query)
    (peer : SocketAddr) (service : DnsRequest → Except Rejection Bytes) :
    ∃ reply sent,
      runService (DnsRequest.new query peer) (service (DnsRequest.new query peer)) = .ok reply ∧
      handleDatagram service raw peer = .ok (some sent) ∧
      sent.length ≤ udpReplyLimit (DnsRequest.new query peer).edns ∧
      512 ≤ udpReplyLimit (DnsRequest.new query peer).edns ∧
      udpReplyLimit (DnsRequest.new query peer).edns ≤ 1232 ∧
      (sent = reply ∨ tcBit sent = true ∧ sent.take 2 = raw.take 2 ∧ query.EchoedBy sent ∧
        sent.length ≤ 512) := by
  obtain ⟨reply, hreply⟩ := runService_ok query peer (service (DnsRequest.new query peer))
  obtain ⟨hmin, hmax⟩ := udpReplyLimit_bounds (DnsRequest.new query peer).edns
  have hrun : handleDatagram service raw peer
      = (do
        let reply ← runService (DnsRequest.new query peer) (service (DnsRequest.new query peer))
        if reply.length > udpReplyLimit (DnsRequest.new query peer).edns then
          let bytes ← Response.truncated query (EdnsInfo.scan query)
          pure (some bytes)
        else pure (some reply)) := by
    rw [handleDatagram, hq]
    rfl
  rw [hreply] at hrun
  by_cases hlong : reply.length > udpReplyLimit (DnsRequest.new query peer).edns
  · -- Too long: the substitute is shorter than any limit, so it need not be measured.
    obtain ⟨bytes, hbytes, htc, hid, hecho, hlen⟩ := truncated_eq hq
    refine ⟨reply, bytes, hreply, ?_, by omega, hmin, hmax, .inr ⟨htc, hid, hecho, by omega⟩⟩
    rw [hrun, hbytes]
    exact if_pos hlong
  · refine ⟨reply, reply, hreply, ?_, by omega, hmin, hmax, .inl rfl⟩
    rw [hrun]
    exact if_neg hlong

/-- The sample query, answered with more than any limit allows. -/
theorem udp_reply_fits_truncated :
    Query.parse Response.sampleDatagram = .ok Response.sampleQuery ∧
    ∃ sent, handleDatagram (fun _ => .ok (List.replicate 2000 0)) Response.sampleDatagram
        (.v4 ⟨127, 0, 0, 1⟩ 5353) = .ok (some sent) ∧ tcBit sent = true ∧ sent.length ≤ 512 := by
  refine ⟨Response.parse_sampleDatagram, ?_⟩
  obtain ⟨reply, sent, hreply, hsent, hlen, -, hmax, hcases⟩ :=
    udp_reply_fits Response.parse_sampleDatagram (.v4 ⟨127, 0, 0, 1⟩ 5353)
      (fun _ => .ok (List.replicate 2000 0))
  obtain rfl | ⟨htc, -, -, hshort⟩ := hcases
  · cases hreply
    rw [List.length_replicate] at hlen
    omega
  · exact ⟨sent, hsent, htc, hshort⟩

end Listener

end Resolver

/-
The question section of a reply.

A synthesized reply copies the question bytes of the query as they are.  A query
that goes to an upstream is asked again from its normalized name, so the reply
that comes back, now or later from the cache, spells the name in lower case.

The bytes the client library writes for a question are a parameter: `encode`
takes the text of the name, the type and the class.

* `questionWire_eq` — the question bytes of a query, label by label;
* `requestQuestion_eq` — those of the request: the same labels in lower case;
* `question_echoed` — so a reply echoes the question exactly when it is
  synthesized, or the client spelled the name in lower case.
-/
import Sagittarius.Listener
import Sagittarius.NameRoundTrip

open BigEndian Codec

namespace Codec

namespace Query

/-- The name bytes of the question, as the client spelled them. -/
def nameWire (q : Query) : Bytes := (q.raw.drop 12).take (q.questionEnd - 4 - 12)

/-- The client spelled the name without upper-case letters. -/
def InLowerCase (q : Query) : Prop := lower q.nameWire = q.nameWire

/-- The question section of the message is that of the query's own datagram. -/
def EchoedBy (q : Query) (message : Bytes) : Prop :=
  slice? message 12 q.questionEnd = slice? q.raw 12 q.questionEnd

instance (q : Query) (message : Bytes) : Decidable (q.EchoedBy message) :=
  inferInstanceAs (Decidable (_ = _))

/-- The question bytes of an accepted query: its raw labels, type and class. -/
theorem questionWire_eq {q : Query} (h : parse q.raw = .ok q) :
    ∃ ls qtype qclass, RawLabels ls ∧ q.questionEnd = 12 + (Question.bytes ls qtype qclass).length ∧
      q.questionWire = Question.bytes ls qtype qclass ∧ q.nameWire = Name.wire ls ∧
      slice? q.raw 12 q.questionEnd = some (Question.bytes ls qtype qclass) ∧
      q.question.name.labels = ls.map lower ∧ q.question.qtype.toU16 = qtype ∧
      q.question.qclass.toU16 = qclass := by
  obtain ⟨_, _, ls, qtype, qclass, rest, hls, hraw, hname, hqt, hqc, hend⟩ := parse_ok h
  have hlen := Question.bytes_length ls qtype qclass
  -- The parse leaves the bytes of the name as the client spelled them.
  have hdrop : q.raw.drop 12 = Question.bytes ls qtype qclass ++ rest := by
    rw [hraw]
    exact List.drop_left' (Header.bytes_length _)
  refine ⟨ls, qtype, qclass, hls, ?_, ?_, ?_, ?_, ?_, ?_, ?_⟩
  · rw [hlen, hend]
  · rw [questionWire, hdrop, hend, Nat.add_sub_cancel_left, ← hlen, List.take_left]
  · have hwire : q.questionEnd - 4 - 12 = (Name.wire ls).length := by
      rw [hend, Name.wire_length]
      omega
    rw [nameWire, hdrop, hwire, Question.bytes, List.append_assoc, List.take_left]
  · rw [hraw, hend]
    exact slice?_middle (Header.bytes_length _) hlen
  · exact Name.labels_eq hls.canon.raw hname
  · rw [hqt, Qtype.toU16_ofU16]
  · rw [hqc, Qclass.toU16_ofU16]

end Query

end Codec

namespace Resolver

namespace Listener

/-- The client library writes the labels of a name as they stand in its text,
each behind its length. -/
def EncodesLabels (encode : String → UInt16 → UInt16 → Bytes) : Prop :=
  ∀ (name : Name) (qtype qclass : UInt16),
    encode name.display qtype qclass = Question.bytes name.labels qtype qclass

/-- The question section of the request `UpstreamClient::forward` builds. -/
def requestQuestion (encode : String → UInt16 → UInt16 → Bytes) (question : Question) : Bytes :=
  encode question.name.display question.qtype.toU16 question.qclass.toU16

/-- The response has the one question `wire`, byte for byte. -/
def echoes (response wire : Bytes) : Bool :=
  slice? response 4 6 = some (be16 1) ∧ slice? response 12 (12 + wire.length) = some wire

/-- The upstream of the step echoes the question it is sent. -/
def upstreamEchoes (encode : String → UInt16 → UInt16 → Bytes) (s : State) : Event → Bool
  | .forward id (.ok (_, response)) =>
    match s.calls.lookup id with
    | some call => echoes response.bytes (requestQuestion encode call.req.query.question)
    | none => true
  | _ => true

theorem exists_of_echoes {response wire : Bytes} (h : echoes response wire = true) :
    ∃ (header : Header) (rest : Bytes), header.qdcount = 1 ∧
      response = header.bytes ++ (wire ++ rest) := by
  rw [echoes, decide_eq_true_eq] at h
  obtain ⟨hcount, hwire⟩ := h
  rw [slice?] at hcount hwire
  split_ifs at hcount with hc
  split_ifs at hwire with hw
  rw [Option.some.injEq, Nat.add_sub_cancel_left] at hwire
  have htake : (response.take 12).length = 12 := by
    rw [List.length_take]
    omega
  obtain ⟨header, hheader⟩ := Header.exists_bytes_eq htake
  have hresponse : response = header.bytes ++ (wire ++ (response.drop 12).drop wire.length) := by
    conv_lhs => rw [← List.take_append_drop 12 response, ← hheader,
      ← List.take_append_drop wire.length (response.drop 12), hwire]
  refine ⟨header, _, ?_, hresponse⟩
  -- The count stands at its place in the header.
  rw [hresponse, Option.some.injEq] at hcount
  have hbytes : be16 header.qdcount = be16 1 := hcount
  simp only [be16, List.cons.injEq] at hbytes
  rw [← ofBe16_be16 header.qdcount, hbytes.1, hbytes.2.1]
  rfl

variable {encode : String → UInt16 → UInt16 → Bytes}

theorem requestQuestion_eq (h : EncodesLabels encode) {q : Query} (hq : Parsed q) :
    ∃ ls qtype qclass, RawLabels ls ∧ q.questionEnd = 12 + (Question.bytes ls qtype qclass).length ∧
      slice? q.raw 12 q.questionEnd = some (Question.bytes ls qtype qclass) ∧
      q.nameWire = Name.wire ls ∧
      requestQuestion encode q.question = Question.bytes (ls.map lower) qtype qclass := by
  obtain ⟨ls, qtype, qclass, hls, hend, _, hname, hslice, hlabels, rfl, rfl⟩ :=
    Query.questionWire_eq hq
  refine ⟨ls, _, _, hls, hend, hslice, hname, ?_⟩
  rw [requestQuestion, h, hlabels]

/-- A reply that starts like an echoing response echoes the query exactly when
the name is in lower case. -/
theorem echoedBy_iff (h : EncodesLabels encode) {q : Query} (hq : Parsed q) {response : Bytes}
    {id : UInt16} (hecho : echoes response (requestQuestion encode q.question) = true) {reply : Bytes}
    (htake : reply.take q.questionEnd = (withTxnId response id).take q.questionEnd) :
    q.EchoedBy reply ↔ q.InLowerCase := by
  obtain ⟨ls, qtype, qclass, hls, hend, hslice, hname, hrequest⟩ := requestQuestion_eq h hq
  obtain ⟨header, rest, _, rfl⟩ := exists_of_echoes hecho
  have hlen : (Question.bytes (ls.map lower) qtype qclass).length
      = (Question.bytes ls qtype qclass).length := by
    rw [Question.bytes_length, Question.bytes_length, wireLen, wireLen, prefixedLength_map_lower]
  have hmiddle : slice? reply 12 q.questionEnd
      = some (Question.bytes (ls.map lower) qtype qclass) := by
    rw [slice?_congr htake, hend, ← hlen, hrequest]
    exact slice?_middle (Header.bytes_length { header with id := id }) rfl
  rw [Query.EchoedBy, hmiddle, hslice, Option.some.injEq, Question.bytes, Question.bytes,
    List.append_left_inj, Query.InLowerCase, hname, Name.lower_wire hls.raw]

/-- The TTLs of an echoing response stand behind its question. -/
theorem offsets_behind_question (h : EncodesLabels encode) {q : Query} (hq : Parsed q)
    {response : Bytes} (hecho : echoes response (requestQuestion encode q.question) = true)
    {rrs : List Rr} {r' : Reader} (hwalk : Rr.walk (Reader.new response) = .ok rrs r') :
    ∀ rr ∈ rrs, q.questionEnd ≤ rr.ttlOffset := by
  intro rr hrr
  obtain ⟨ls, qtype, qclass, hls, hend, _, _, hrequest⟩ := requestQuestion_eq h hq
  obtain ⟨header, rest, hqd, rfl⟩ := exists_of_echoes hecho
  rw [hrequest] at hwalk
  -- The walk reads the header, then the one question, then the records.
  have hat := Reader.at_new
    (header.bytes ++ (Question.bytes (ls.map lower) qtype qclass ++ rest))
  have hread := Header.read_ok_iff.mpr ⟨rfl, hat.prefix⟩
  have hskip := Response.skipQuestions_one hls.canon.toRawLabels
    (hat.advance (Header.bytes_length header))
  have hone : header.qdcount.toNat = 1 := by
    rw [hqd]
    rfl
  rw [Rr.walk, bind_of_ok hread, hone, bind_of_ok hskip] at hwalk
  have hle := Rr.readN_pos_le hwalk rr hrr
  rw [hend, Question.bytes_length]
  simp only [Reader.advance_pos, Reader.new, wireLen, prefixedLength_map_lower] at hle ⊢
  omega

/-! ### The policy -/

/-- What is stored echoes the request, up to its first TTL; a reply echoes the
query exactly when it is synthesized or the name is in lower case. -/
def echoing (encode : String → UInt16 → UInt16 → Bytes) : Policy where
  mayStore := fun question response ttlOffsets =>
    echoes response.bytes (requestQuestion encode question) = true ∧
    ∀ q, Parsed q → q.question = question → ∀ offset ∈ ttlOffsets, q.questionEnd ≤ offset
  mayReply := fun _ q source bytes => q.EchoedBy bytes ↔ source = .synthesized ∨ q.InLowerCase

/-- A synthesized reply copies the question. -/
theorem echoedBy_copy {q : Query} (hq : Parsed q) (header : Header) (rest : Bytes) :
    q.EchoedBy (header.bytes ++ (q.questionWire ++ rest)) := by
  obtain ⟨ls, qtype, qclass, _, hend, hwire, _, hslice, _⟩ := Query.questionWire_eq hq
  rw [Query.EchoedBy, hslice, hend, hwire]
  exact slice?_middle (Header.bytes_length header) rfl

theorem echoing_sound (h : EncodesLabels encode) : (echoing encode).Sound where
  built := by
    intro _ q rcode aa answers bytes hq hbuild
    rw [Response.build_eq (fun e => EdnsInfo.scan_valid), Except.ok.injEq] at hbuild
    subst hbuild
    exact iff_of_true (echoedBy_copy hq _ _) (Or.inl rfl)
  truncated := by
    intro q bytes hq hbuild
    rw [Response.truncated, Response.buildTc_eq (fun e => EdnsInfo.scan_valid),
      Except.ok.injEq] at hbuild
    subst hbuild
    exact iff_of_true (echoedBy_copy hq _ _) (Or.inl rfl)
  patched := by
    intro _ q response entry secs hq hbytes hstore
    obtain ⟨hecho, hoffsets⟩ := hstore
    rw [← hbytes] at hecho
    have htake := take_patchedFor q.header.id secs (hoffsets q hq rfl)
    show q.EchoedBy _ ↔ _
    rw [echoedBy_iff h hq hecho htake]
    simp

theorem echoing_admits (h : EncodesLabels encode) {s : State} {e : Event}
    (he : upstreamEchoes encode s e = true) : (echoing encode).Admits s e := by
  cases e with
  | forward id answer =>
    cases answer with
    | error err => trivial
    | ok p =>
      obtain ⟨addr, response⟩ := p
      intro call hcall hq
      have hecho : echoes response.bytes (requestQuestion encode call.req.query.question) = true := by
        simpa only [upstreamEchoes, hcall] using he
      constructor
      · show call.req.query.EchoedBy _ ↔ _
        rw [echoedBy_iff h hq hecho rfl]
        simp
      · intro bytes ttlOffsets expiry hdir
        obtain ⟨rfl, _, rrs, r', hwalk, rfl⟩ := ForwardService.directive_eq_store hdir
        refine ⟨hecho, ?_⟩
        intro q hparsed hquestion offset hoffset
        obtain ⟨rr, hrr, rfl⟩ := List.mem_map.mp hoffset
        -- Another client may ask the stored question: its name has the same length.
        rw [← hquestion] at hecho
        exact offsets_behind_question h hparsed hecho hwalk rr (List.mem_of_mem_filter hrr)
  | _ => trivial

/-- **Question echo.**  In every run whose upstreams echo the question they are
sent, a reply to a query echoes the question of that client's own datagram
exactly when the reply is synthesized or the client spelled the name in lower
case. -/
theorem question_echoed (hencode : EncodesLabels encode) {s s' : State} {es : List Event}
    (hinit : s.Initial) (hecho : Transition.Along step (fun s e => upstreamEchoes encode s e = true) s es)
    (hrun : Transition.run step s es = some s') :
    ∀ m ∈ s'.sent, ∀ q, m.query = some q →
      (q.EchoedBy m.message ↔ m.source = .synthesized ∨ q.InLowerCase) := by
  have hlawful := Policy.lawful_run (echoing_sound hencode) hinit
    (hecho.mono (fun _ _ h => echoing_admits hencode h)) hrun
  intro m hm q hq
  have hsent := hlawful.sent m hm
  rw [Policy.SentOk, hq] at hsent
  exact hsent.2

/-- An encoder that parses the text and writes the labels it finds. -/
def encodeText (text : String) (qtype qclass : UInt16) : Bytes :=
  match Name.fromStr text with
  | .ok name => Question.bytes name.labels qtype qclass
  | .error _ => []

theorem encodeText_encodesLabels : EncodesLabels encodeText := by
  intro name qtype qclass
  rw [encodeText, Name.fromStr_display]

/-- A datagram that asks for the address of a name of one letter. -/
def asksFor (letter : UInt8) : Bytes :=
  [0xAB, 0xCD, 1, 0, 0, 1, 0, 0, 0, 0, 0, 0, 1, letter, 0, 0, 1, 0, 1]

/-- The address of `a.`, under a question in lower case. -/
def lowerCaseReply : UpstreamResponse where
  bytes := [0, 7, 0x81, 0x80, 0, 1, 0, 1, 0, 0, 0, 0, 1, 97, 0, 0, 1, 0, 1,
    0xC0, 0x0C, 0, 1, 0, 1, 0, 0, 0, 60, 0, 4, 192, 0, 2, 1]
  responseCode := .noError
  negativeTtl := none
  containsAnswer := true

/-- One client is answered from an upstream, and another one, which spells the
name with the letter given, from the cache. -/
def missThenHit (letter : UInt8) : List Event :=
  answeredBy 1 .udp (asksFor 97) lowerCaseReply ++ answeredFromCache 2 .udp (asksFor letter)

/-- Whether each message echoes the question it answers. -/
def State.echoed (s : State) : List Bool :=
  s.sent.map (fun m => m.query.all (fun q => decide (q.EchoedBy m.message)))

theorem question_echoed_lower_case :
    startState.Initial ∧ EncodesLabels encodeText ∧
    Transition.Along step (fun s e => upstreamEchoes encodeText s e = true) startState
      (missThenHit 97) ∧
    ∃ s, Transition.run step startState (missThenHit 97) = some s ∧ s.echoed = [true, true] ∧
      ∀ m ∈ s.sent, ∀ q, m.query = some q →
        (q.EchoedBy m.message ↔ m.source = .synthesized ∨ q.InLowerCase) := by
  have hecho : Transition.Along step (fun s e => upstreamEchoes encodeText s e = true) startState
      (missThenHit 97) := by
    decide
  have hsent : (Transition.run step startState (missThenHit 97)).map State.echoed
      = some [true, true] := by
    decide
  obtain ⟨s, hrun, hs⟩ := Option.map_eq_some_iff.mp hsent
  exact ⟨startState_initial, encodeText_encodesLabels, hecho, s, hrun, hs,
    question_echoed encodeText_encodesLabels startState_initial hecho hrun⟩

/-- The client that spells the name in upper case gets the question of the
client before it. -/
theorem upper_case_question_not_echoed :
    ¬ ∀ encode, EncodesLabels encode → ∀ (s s' : State) (es : List Event), s.Initial →
      Transition.Along step (fun s e => upstreamEchoes encode s e = true) s es →
      Transition.run step s es = some s' →
      ∀ m ∈ s'.sent, ∀ q, m.query = some q → q.EchoedBy m.message := by
  intro h
  have hecho : Transition.Along step (fun s e => upstreamEchoes encodeText s e = true) startState
      (missThenHit 65) := by
    decide
  have hsent : (Transition.run step startState (missThenHit 65)).map State.echoed
      = some [true, false] := by
    decide
  obtain ⟨s, hrun, hs⟩ := Option.map_eq_some_iff.mp hsent
  have hall := h _ encodeText_encodesLabels _ s _ startState_initial hecho hrun
  have hmem : false ∈ s.echoed := by
    rw [hs]
    simp
  obtain ⟨m, hm, hbit⟩ := List.mem_map.mp hmem
  cases hquery : m.query with
  | none =>
    rw [hquery] at hbit
    cases hbit
  | some q =>
    rw [hquery] at hbit
    exact of_decide_eq_false hbit (hall m hm q hquery)

end Listener

end Resolver

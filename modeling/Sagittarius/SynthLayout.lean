/-
What a client sees of a synthesized response.

The synthesizer writes bytes; the walkers of the codec read them back.  This
file puts the two together: `Layout` says what the walk over a response finds
(header, question, answers, OPT), and every builder is shown to produce it.

* `readN_answers` — the walk reads the answers back, each through the pointer
  to the question, and finds their TTLs at the offsets it reports;
* `readN_opt` — and then the OPT record, if there is one;
* `layout_of_bytes` — header, question, answers and OPT in a row have the layout;
* `builders_have_layout` — all six builders, for every accepted datagram.
-/
import Sagittarius.Synth

open BigEndian Delimited

namespace Codec

namespace Response

/-- The record of a walk, seen as the answer it was written from. -/
def answerOf (rr : Rr) : AnswerRr := ⟨rr.rtype, rr.ttl, rr.rdata⟩

/-- The OPT section a response has for a query's EDNS. -/
def OptSection (edns : Option EdnsInfo) (opt : List Rr) : Prop :=
  match edns with
  | none => opt = []
  | some e => ∃ o, opt = [o] ∧ o.rtype = OPT_TYPE ∧ o.rclass = SERVER_UDP_PAYLOAD_SIZE ∧
      o.rdata = optRdata e.cookie ∧ EdnsInfo.extractCookie o.rdata = e.cookie

/-- **The layout of a response** `out` to the query `q` parsed from `m`: what
the header reader, the record walk and the TTL scan find in it. -/
structure Layout (m : Bytes) (q : Query) (ttl : UInt32) (answers : List AnswerRr) (out : Bytes)
    (hdr : Header) (rrs opt : List Rr) (scan : TtlScan) : Prop where
  header : Header.read (Reader.new out) = .ok hdr ⟨out, 12⟩
  id_eq : out.take 2 = m.take 2
  qr : hdr.qr = true
  ra : hdr.ra = true
  rd : hdr.rd = q.header.rd
  qdcount : hdr.qdcount = 1
  ancount : hdr.ancount.toNat = answers.length
  question : ∃ w, slice? m 12 q.questionEnd = some w ∧ slice? out 12 q.questionEnd = some w
  records : Rr.walk (Reader.new out) = .ok (rrs ++ opt) ⟨out, out.length⟩
  scanned : TtlScan.walk (Reader.new out) = .ok scan ⟨out, out.length⟩
  answers_eq : rrs.map answerOf = answers
  offsets : scan.ttlOffsets = rrs.map Rr.ttlOffset
  ttls : ∀ off ∈ scan.ttlOffsets, slice? out off (off + 4) = some (be32 ttl)
  no_opt : ∀ rr ∈ rrs, rr.rtype ≠ OPT_TYPE
  opt_section : OptSection (EdnsInfo.scan q) opt

/-- A builder returned a message with the layout; in particular no `expect` of
it was reached. -/
def Synthesized (m : Bytes) (q : Query) (ttl : UInt32) (answers : List AnswerRr)
    (res : Except Panic Bytes) : Prop :=
  ∃ out hdr rrs opt scan, res = .ok out ∧ Layout m q ttl answers out hdr rrs opt scan

/-! ### Reading the parts back -/

/-- The walk reads the answers back, and finds their TTLs where it says. -/
theorem readN_answers {ls : List Bytes} (hls : RawLabels ls) :
    ∀ {answers : List AnswerRr} {rest : Bytes} {r : Reader},
    Name.wire ls <+: r.buf.drop 12 → 12 < r.pos → r.At (answers.flatMap answerBytes ++ rest) →
    (∀ a ∈ answers, a.rdata.length < 65536) →
    ∃ rrs r', Rr.readN answers.length r = .ok rrs r' ∧ r'.At rest ∧ r'.buf = r.buf ∧
      rrs.map answerOf = answers ∧ ∀ rr ∈ rrs, be32 rr.ttl <+: r.buf.drop rr.ttlOffset := by
  intro answers
  induction answers with
  | nil =>
    intro rest r _ _ hat _
    exact ⟨[], r, rfl, hat, rfl, rfl, by simp⟩
  | cons a answers ih =>
    intro rest r hwire hpos hat hlen
    have hlena : a.rdata.length < 65536 := hlen a (by simp)
    rw [List.flatMap_cons, List.append_assoc, answerBytes, List.append_assoc] at hat
    -- The owner is the pointer to offset 12, where the question name stands.
    have hskip : Name.skipRr r = .ok () (r.advance 2) :=
      Name.skipRr_pointer hls 0x0C hwire hpos hat.prefix
    have hbody := hat.advance (n := 2) rfl
    obtain ⟨hread, httl⟩ := Rr.read_body hskip hbody hlena
    have hnext : (r.advance (2 + (10 + a.rdata.length))).At
        (answers.flatMap answerBytes ++ rest) := by
      rw [← Reader.advance_advance]
      exact hbody.advance (Rr.body_length _ _ _ _)
    obtain ⟨rrs, r', hrrs, hat', hbuf', hmap, httls⟩ :=
      ih (r := r.advance (2 + (10 + a.rdata.length))) hwire (Nat.lt_add_right _ hpos) hnext
        (fun b hb => hlen b (by simp [hb]))
    refine ⟨⟨a.rtype, CLASS_IN, r.pos + 2 + 4, a.ttl, a.rdata⟩ :: rrs, r', ?_, hat', hbuf', ?_, ?_⟩
    · rw [List.length_cons, Rr.readN, bind_of_ok hread, bind_of_ok hrrs]
      rfl
    · rw [List.map_cons, hmap]
      rfl
    · intro rr hrr
      rcases List.mem_cons.mp hrr with rfl | hrr
      · exact httl
      · exact httls rr hrr

theorem extractCookie_optRdata {cookie : Option Bytes}
    (h : ∀ c, cookie = some c → EdnsInfo.validCookieLen c.length = true) :
    EdnsInfo.extractCookie (optRdata cookie) = cookie := by
  cases cookie with
  | none => rfl
  | some c =>
    have hvalid := h c rfl
    have hle := EdnsInfo.le_of_validCookieLen hvalid
    have hlen : (UInt16.ofNat c.length).toNat = c.length := by
      rw [UInt16.toNat_ofNat', Nat.mod_eq_of_lt (by omega)]
    have hfuel : (optRdata (some c)).length = (3 + c.length) + 1 := by
      simp only [optRdata, List.length_append, be16_length]
      omega
    rw [EdnsInfo.extractCookie, hfuel, optRdata]
    generalize UInt16.ofNat c.length = v at hlen
    simp only [be16, List.cons_append, List.nil_append, EdnsInfo.extractCookieLoop, ofBe16_be16]
    rw [hlen, if_neg (Nat.lt_irrefl _), if_pos trivial, if_pos hvalid, List.take_length]

/-- The walk reads the OPT record back, and ends at the end. -/
theorem readN_opt {edns : Option EdnsInfo} (hvalid : ∀ e, edns = some e → e.Valid) {r : Reader}
    (hat : r.At (optBytes edns)) :
    ∃ opt r', Rr.readN (arcount edns).toNat r = .ok opt r' ∧ r'.At [] ∧ r'.buf = r.buf ∧
      OptSection edns opt := by
  cases edns with
  | none => exact ⟨[], r, rfl, hat, rfl, rfl⟩
  | some e =>
    have hcookie := hvalid e rfl
    have hlen : (optRdata e.cookie).length < 65536 := by
      cases hc : e.cookie with
      | none => simp [optRdata]
      | some c =>
        have := EdnsInfo.le_of_validCookieLen (hcookie c hc)
        simp only [optRdata, List.length_append, be16_length]
        omega
    have hat' : r.At (Name.wire [] ++
        (Rr.body OPT_TYPE SERVER_UDP_PAYLOAD_SIZE 0 (optRdata e.cookie) ++ [])) := by
      rw [List.append_nil]
      exact hat
    have hroot : RawLabels [] := ⟨by simp, by simp [wireLen, MAX_NAME_WIRE_LEN]⟩
    have hskip := Name.skipRr_wire hroot hat'.prefix
    have hbody := hat'.advance (Name.wire_length [])
    obtain ⟨hread, _⟩ := Rr.read_body hskip hbody hlen
    refine ⟨[⟨OPT_TYPE, SERVER_UDP_PAYLOAD_SIZE, r.pos + wireLen [] + 4, 0, optRdata e.cookie⟩],
      r.advance (wireLen [] + (10 + (optRdata e.cookie).length)), ?_, ?_, rfl, _, rfl, rfl, rfl, rfl,
      extractCookie_optRdata hcookie⟩
    · show Rr.readN (0 + 1) r = _
      rw [Rr.readN, bind_of_ok hread, Rr.readN, bind_of_ok (show (pure [] : ReadM _) _ = _ from rfl)]
      rfl
    · rw [← Reader.advance_advance]
      exact hbody.advance (Rr.body_length _ _ _ _)

theorem skipQuestions_one {ls : List Bytes} {qtype qclass : UInt16} {rest : Bytes} {r : Reader}
    (hls : RawLabels ls) (hat : r.At (Question.bytes ls qtype qclass ++ rest)) :
    skipQuestions 1 r = .ok () (r.advance (wireLen ls + 4)) := by
  simp only [Question.bytes, List.append_assoc] at hat
  have h1 := hat.advance (Name.wire_length ls)
  have h2 := h1.advance (be16_length qtype)
  rw [skipQuestions, bind_of_ok (Name.skipRr_wire hls hat.prefix), bind_of_ok h1.readU16,
    bind_of_ok h2.readU16]
  simp only [Reader.advance_advance]
  rfl

/-! ### The headers -/

/-- The header fields that every builder sets the same way. -/
structure ResponseHeader (q : Query) (edns : Option EdnsInfo) (n : Nat) (hdr : Header) : Prop where
  id : hdr.id = q.header.id
  qr : hdr.qr = true
  ra : hdr.ra = true
  rd : hdr.rd = q.header.rd
  qdcount : hdr.qdcount = 1
  ancount : hdr.ancount.toNat = n
  nscount : hdr.nscount = 0
  arcount : hdr.arcount = arcount edns

theorem tcHeader_spec (q : Query) (edns : Option EdnsInfo) :
    ResponseHeader q edns 0 (tcHeader q edns) := by
  have bits : ∀ rd : Bool,
      let hdr := (((((Header.new 0).withQr true).withTc true).withRd rd).withRa true).withRcode
        .noError
      hdr.qr = true ∧ hdr.ra = true ∧ hdr.rd = rd := by
    decide
  obtain ⟨hqr, hra, hrd⟩ := bits q.header.rd
  exact ⟨rfl, hqr, hra, hrd, rfl, rfl, rfl, rfl⟩

theorem buildHeader_spec (q : Query) (rcode : Rcode) (aa : Bool) (answers : List AnswerRr)
    (edns : Option EdnsInfo) (hlen : answers.length < 65536) :
    ResponseHeader q edns answers.length (buildHeader q rcode aa answers edns) := by
  -- The flag word depends on two booleans and a response code below 16.
  have bits : ∀ n < 16, ∀ rd aa : Bool,
      let flags := ((((Header.new 0).withQr true).withRd rd).withRa true).flags
      let flags := (flags &&& ~~~Header.FLAG_RCODE) ||| (UInt8.ofNat n).toUInt16
      let hdr : Header := ⟨0, flags, 0, 0, 0, 0⟩
      let hdr := if aa then hdr.withAa true else hdr
      hdr.qr = true ∧ hdr.ra = true ∧ hdr.rd = rd := by
    decide
  obtain ⟨hqr, hra, hrd⟩ := bits rcode.toU8.toNat rcode.toU8_lt q.header.rd aa
  rw [UInt8.ofNat_toNat] at hqr hra hrd
  have hcount : (UInt16.ofNat answers.length).toNat = answers.length := by
    rw [UInt16.toNat_ofNat', Nat.mod_eq_of_lt hlen]
  cases aa with
  | true => exact ⟨rfl, hqr, hra, hrd, rfl, hcount, rfl, rfl⟩
  | false => exact ⟨rfl, hqr, hra, hrd, rfl, hcount, rfl, rfl⟩

/-! ### The layout -/

/-- Header, question, answers and OPT in a row have the layout. -/
theorem layout_of_bytes {m : Bytes} {q : Query} (hq : Query.parse m = .ok q) {ttl : UInt32}
    {answers : List AnswerRr} {hdr : Header}
    (hhdr : ResponseHeader q (EdnsInfo.scan q) answers.length hdr)
    (hrdata : ∀ a ∈ answers, a.rdata.length < 65536) (httl : ∀ a ∈ answers, a.ttl = ttl)
    (hopt : ∀ a ∈ answers, a.rtype ≠ OPT_TYPE) :
    Synthesized m q ttl answers (.ok (hdr.bytes ++
      (q.questionWire ++ (answers.flatMap answerBytes ++ optBytes (EdnsInfo.scan q))))) := by
  obtain ⟨hraw, hqd, ls, qtype, qclass, mrest, hls, hm, _, _, _, hend⟩ := Query.parse_ok hq
  generalize hedns : EdnsInfo.scan q = edns at *
  have hvalid : ∀ e, edns = some e → e.Valid := fun e he => EdnsInfo.scan_valid (hedns.trans he)
  have hqlen := Question.bytes_length ls qtype qclass
  -- The question bytes are copied from the datagram.
  have hquestion : q.questionWire = Question.bytes ls qtype qclass := by
    rw [Query.questionWire, hraw, hm, hend, List.drop_left' (Header.bytes_length _),
      Nat.add_sub_cancel_left, ← hqlen, List.take_left]
  rw [hquestion]
  generalize hout : hdr.bytes ++ (Question.bytes ls qtype qclass ++
    (answers.flatMap answerBytes ++ optBytes edns)) = out
  have hat0 : (Reader.new out).At (hdr.bytes ++ (Question.bytes ls qtype qclass ++
      (answers.flatMap answerBytes ++ optBytes edns))) := by
    rw [hout]
    exact Reader.at_new out
  have hreadhdr : Header.read (Reader.new out) = .ok hdr ((Reader.new out).advance 12) :=
    Header.read_ok_iff.mpr ⟨rfl, hat0.prefix⟩
  have hat1 := hat0.advance hdr.bytes_length
  have hskip := skipQuestions_one hls hat1
  have hat2 := hat1.advance hqlen
  have hname : Name.wire ls <+: out.drop 12 := by
    have := hat1.prefix
    exact List.IsPrefix.trans (List.prefix_append _ _) this
  obtain ⟨rrs, r₁, hrrs, hat3, hbuf1, hmap, httls⟩ := readN_answers hls hname
    (show 12 < 0 + 12 + (wireLen ls + 4) by omega) hat2 hrdata
  obtain ⟨opt, r₂, hoptrr, hat4, hbuf2, hsection⟩ := readN_opt hvalid hat3
  have hbuf : r₂.buf = out := hbuf2.trans hbuf1
  have hr₂ : r₂ = ⟨out, out.length⟩ := by
    have hpos := hat4.pos_eq
    rw [hbuf] at hpos
    exact Reader.ext hbuf hpos
  subst hr₂
  have hwalk : Rr.readN (hdr.ancount.toNat + hdr.nscount.toNat + hdr.arcount.toNat)
      (((Reader.new out).advance 12).advance (wireLen ls + 4)) = .ok (rrs ++ opt) ⟨out, out.length⟩ := by
    rw [hhdr.ancount, hhdr.nscount, hhdr.arcount]
    exact Rr.readN_add hrrs hoptrr
  have hqdc : hdr.qdcount.toNat = 1 := by
    rw [hhdr.qdcount]
    rfl
  -- The answers are not OPT records, the OPT section is nothing else.
  have hnoopt : ∀ rr ∈ rrs, rr.rtype ≠ OPT_TYPE := by
    intro rr hrr
    have hmem : answerOf rr ∈ answers := by
      rw [← hmap]
      exact List.mem_map_of_mem hrr
    exact hopt _ hmem
  have honlyopt : opt.filter (fun rr => rr.rtype ≠ OPT_TYPE) = [] := by
    cases edns with
    | none =>
      obtain rfl : opt = [] := hsection
      rfl
    | some e =>
      obtain ⟨o, rfl, ho, _⟩ := hsection
      simp [ho]
  have hoffsets : ((rrs ++ opt).foldl TtlScan.add ⟨none, []⟩).ttlOffsets
      = rrs.map Rr.ttlOffset := by
    rw [TtlScan.foldl_add_ttlOffsets, List.filter_append, honlyopt, List.append_nil,
      List.filter_eq_self.mpr (by simpa using hnoopt), List.nil_append]
  refine ⟨out, hdr, rrs, opt, (rrs ++ opt).foldl TtlScan.add ⟨none, []⟩, rfl, ?_⟩
  refine ⟨hreadhdr, ?_, hhdr.qr, hhdr.ra, hhdr.rd, hhdr.qdcount, hhdr.ancount, ?_, ?_, ?_, hmap,
    hoffsets, ?_, hnoopt, ?_⟩
  · rw [← hout, hm]
    show be16 hdr.id = be16 q.header.id
    rw [hhdr.id]
  · refine ⟨Question.bytes ls qtype qclass, ?_, ?_⟩
    · rw [hend, hm]
      exact slice?_middle (Header.bytes_length _) hqlen
    · rw [hend, ← hout]
      exact slice?_middle (Header.bytes_length _) hqlen
  · rw [Rr.walk, bind_of_ok hreadhdr, hqdc, bind_of_ok hskip]
    exact hwalk
  · rw [TtlScan.walk, bind_of_ok hreadhdr, hqdc, bind_of_ok hskip]
    exact TtlScan.loop_ok_iff.mpr ⟨_, hwalk, rfl⟩
  · intro off hoff
    rw [hoffsets] at hoff
    obtain ⟨rr, hrr, rfl⟩ := List.mem_map.mp hoff
    have hmem : answerOf rr ∈ answers := by
      rw [← hmap]
      exact List.mem_map_of_mem hrr
    have hpre : be32 rr.ttl <+: out.drop rr.ttlOffset := httls rr hrr
    rw [show rr.ttl = ttl from httl _ hmem] at hpre
    have hlen := hpre.length_le
    rw [be32_length, List.length_drop] at hlen
    rw [slice?, if_pos ⟨by omega, by omega⟩, Nat.add_sub_cancel_left]
    exact congrArg some (List.prefix_iff_eq_take.mp hpre).symm
  · rw [hedns]
    exact hsection

theorem synthesized_build {m : Bytes} {q : Query} (hq : Query.parse m = .ok q) {ttl : UInt32}
    (rcode : Rcode) (aa : Bool) {answers : List AnswerRr} (hlen : answers.length ≤ 65535)
    (hrdata : ∀ a ∈ answers, a.rdata.length ≤ 65535) (httl : ∀ a ∈ answers, a.ttl = ttl)
    (hopt : ∀ a ∈ answers, a.rtype ≠ OPT_TYPE) :
    Synthesized m q ttl answers (build q rcode aa answers (EdnsInfo.scan q)) := by
  rw [build_eq (fun e => EdnsInfo.scan_valid)]
  refine layout_of_bytes hq (buildHeader_spec q rcode aa answers _ (by omega)) ?_ httl hopt
  intro a ha
  have := hrdata a ha
  omega

/-- The answers of a block response: a sinkhole address for an address query. -/
def blockAnswers (q : Query) (mode : BlockMode) (ttl : UInt32) : List AnswerRr :=
  match mode, q.question.qtype with
  | .address v4 _, .a => [⟨1, ttl, v4.octets⟩]
  | .address _ v6, .aaaa => [⟨28, ttl, v6.octets⟩]
  | _, _ => []

/-- A block response is a build over its answers. -/
theorem block_eq (q : Query) (mode : BlockMode) (ttl : UInt32) (edns : Option EdnsInfo) :
    ∃ rcode, block q mode ttl edns = build q rcode false (blockAnswers q mode ttl) edns := by
  cases mode with
  | nxDomain => exact ⟨.nxDomain, rfl⟩
  | address v4 v6 =>
    refine ⟨.noError, ?_⟩
    cases hqt : q.question.qtype with
    | a => simp only [block, blockAnswers, hqt]
    | aaaa => simp only [block, blockAnswers, hqt]
    | ptr => simp only [block, blockAnswers, hqt]
    | other v => simp only [block, blockAnswers, hqt]

theorem blockAnswers_spec (q : Query) (mode : BlockMode) (ttl : UInt32) :
    (blockAnswers q mode ttl).length ≤ 65535 ∧ ∀ a ∈ blockAnswers q mode ttl,
      a.rdata.length ≤ 65535 ∧ a.ttl = ttl ∧ a.rtype ≠ OPT_TYPE := by
  unfold blockAnswers
  split
  · simp [Ipv4Addr.octets, OPT_TYPE]
  · simp [Ipv6Addr.octets_length, OPT_TYPE]
  · simp

/-- **Every builder produces the layout.**  For every accepted datagram, with
the EDNS scanned from it, each builder returns a message that the codec's own
walkers read back: header, question, one TTL for each answer, and the OPT
record with the query's cookie.  Local records of type OPT are left out: they
would be walked as a second OPT record. -/
theorem builders_have_layout {m : Bytes} {q : Query} (hq : Query.parse m = .ok q)
    (mode : BlockMode) (ttl : UInt32) (records : List LocalRecord) (target : Name) (rcode : Rcode)
    (hlen : records.length ≤ 65535) (hrdata : ∀ r ∈ records, r.rdata.length ≤ 65535)
    (hopt : ∀ r ∈ records, r.rtype ≠ OPT_TYPE) :
    Synthesized m q ttl (blockAnswers q mode ttl) (block q mode ttl (EdnsInfo.scan q)) ∧
    Synthesized m q ttl (records.map (fun r => ⟨r.rtype, ttl, r.rdata⟩))
      (localAnswer q records ttl (EdnsInfo.scan q)) ∧
    Synthesized m q ttl [] (localNodata q (EdnsInfo.scan q)) ∧
    Synthesized m q ttl [⟨12, ttl, (target.write Writer.new).finish⟩]
      (localPtr q target ttl (EdnsInfo.scan q)) ∧
    Synthesized m q ttl [] (errorResponse q rcode (EdnsInfo.scan q)) ∧
    Synthesized m q ttl [] (truncated q (EdnsInfo.scan q)) := by
  refine ⟨?_, ?_, ?_, ?_, ?_, ?_⟩
  · obtain ⟨rc, hblock⟩ := block_eq q mode ttl (EdnsInfo.scan q)
    obtain ⟨hcount, hall⟩ := blockAnswers_spec q mode ttl
    rw [hblock]
    exact synthesized_build hq rc false hcount (fun a ha => (hall a ha).1)
      (fun a ha => (hall a ha).2.1) (fun a ha => (hall a ha).2.2)
  · refine synthesized_build hq .noError true (by simpa using hlen) ?_ ?_ ?_
    · intro a ha
      obtain ⟨r, hr, rfl⟩ := List.mem_map.mp ha
      exact hrdata r hr
    · intro a ha
      obtain ⟨r, _, rfl⟩ := List.mem_map.mp ha
      rfl
    · intro a ha
      obtain ⟨r, hr, rfl⟩ := List.mem_map.mp ha
      exact hopt r hr
  · exact synthesized_build hq .noError true (by simp) (by simp) (by simp) (by simp)
  · have hname : ((target.write Writer.new).finish).length ≤ 255 := by
      rw [Writer.finish, Name.write_eq]
      show (Name.wire target.labels).length ≤ 255
      rw [Name.wire_length]
      exact target.labels_canon.wireLen_le
    refine synthesized_build hq .noError true (by simp) ?_ (by simp) (by simp [OPT_TYPE])
    intro a ha
    rw [List.mem_singleton] at ha
    subst ha
    exact Nat.le_trans hname (by omega)
  · exact synthesized_build hq rcode false (by simp) (by simp) (by simp) (by simp)
  · rw [truncated, buildTc_eq (fun e => EdnsInfo.scan_valid)]
    exact layout_of_bytes hq (tcHeader_spec q _) (by simp) (by simp) (by simp)

/-- A datagram that asks for `a.` with EDNS and an eight-byte cookie. -/
def sampleDatagram : Bytes :=
  [0xAB, 0xCD, 0x01, 0x00, 0, 1, 0, 0, 0, 0, 0, 1] ++ [1, 65, 0, 0, 1, 0, 1] ++
    [0, 0, 41, 4, 208, 0, 0, 0, 0, 0, 12] ++ [0, 10, 0, 8, 1, 2, 3, 4, 5, 6, 7, 8]

/-- The name `a.`. -/
def sampleName : Name := ⟨"a.", [[97]], ⟨⟨by
    intro l hl
    obtain rfl : l = [97] := by simpa using hl
    exact rawLabel_iff.mpr (by decide), by decide⟩, by decide⟩, by decide⟩

/-- What the parser makes of `sampleDatagram`. -/
def sampleQuery : Query :=
  ⟨sampleDatagram, ⟨0xABCD, 0x0100, 1, 0, 0, 1⟩, ⟨sampleName, .a, .in⟩, 19⟩

theorem parse_sampleDatagram : Query.parse sampleDatagram = .ok sampleQuery := by
  decide

theorem builders_have_layout_sample :
    Query.parse sampleDatagram = .ok sampleQuery ∧
    Synthesized sampleDatagram sampleQuery 60 [⟨1, 60, [10, 0, 0, 1]⟩, ⟨1, 60, [10, 0, 0, 2]⟩]
      (localAnswer sampleQuery [⟨1, [10, 0, 0, 1]⟩, ⟨1, [10, 0, 0, 2]⟩] 60
        (EdnsInfo.scan sampleQuery)) :=
  ⟨parse_sampleDatagram, (builders_have_layout parse_sampleDatagram .nxDomain 60
    [⟨1, [10, 0, 0, 1]⟩, ⟨1, [10, 0, 0, 2]⟩] sampleName .servFail (by decide) (by decide)
    (by decide)).2.1⟩

/-- The message built for a single local record of type OPT. -/
def optTypedAnswer : Bytes :=
  [0xAB, 0xCD, 0x85, 0x80, 0, 1, 0, 1, 0, 0, 0, 1] ++ [1, 65, 0, 0, 1, 0, 1] ++
    [0xC0, 0x0C, 0, 41, 0, 1, 0, 0, 0, 60, 0, 0] ++
    [0, 0, 41, 4, 208, 0, 0, 0, 0, 0, 12] ++ [0, 10, 0, 8, 1, 2, 3, 4, 5, 6, 7, 8]

/-- A local record of type OPT is written as the one answer, but the scan finds
no TTL for it. -/
theorem opt_typed_record_breaks_layout :
    Query.parse sampleDatagram = .ok sampleQuery ∧
    localAnswer sampleQuery [⟨41, []⟩] 60 (EdnsInfo.scan sampleQuery) = .ok optTypedAnswer ∧
    (TtlScan.scan optTypedAnswer).toOption = some ⟨none, []⟩ ∧
    ¬ Synthesized sampleDatagram sampleQuery 60 [⟨41, 60, []⟩]
      (localAnswer sampleQuery [⟨41, []⟩] 60 (EdnsInfo.scan sampleQuery)) := by
  have hbuilt : localAnswer sampleQuery [⟨41, []⟩] 60 (EdnsInfo.scan sampleQuery)
      = .ok optTypedAnswer := by
    decide
  have hscan : TtlScan.walk (Reader.new optTypedAnswer)
      = .ok ⟨none, []⟩ ⟨optTypedAnswer, optTypedAnswer.length⟩ := rfl
  refine ⟨parse_sampleDatagram, hbuilt, ?_, ?_⟩
  · rw [TtlScan.scan, hscan]
    rfl
  · rintro ⟨out, hdr, rrs, opt, scan, hout, h⟩
    rw [hbuilt, Except.ok.injEq] at hout
    subst hout
    -- One answer, so one offset; but the scan has none.
    have hone : rrs.length = 1 := by
      have := congrArg List.length h.answers_eq
      simpa using this
    have hnone : scan.ttlOffsets = [] := by
      have := h.scanned
      rw [hscan, EStateM.Result.ok.injEq] at this
      rw [← this.1]
    have hoffsets := congrArg List.length h.offsets
    rw [hnone, List.length_map, hone] at hoffsets
    exact absurd hoffsets (by simp)

end Response

end Codec

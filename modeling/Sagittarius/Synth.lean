/-
EDNS scan and response synthesis (`codec/synth.rs`).

A synthesized response is a header, the question bytes of the query copied as
they are, answer records whose owner is a pointer to the question, and one OPT
record when the query carried EDNS.  The builders of the source share `build`
and `buildTc`; a length that must fit in 16 bits is checked with `expect`, which
is a `Panic` here.

* `EdnsInfo.scan_valid` — a cookie the scan returns has a valid length;
* `writeOpt_eq` — so the OPT record is written, and what its bytes are;
* `build_eq`, `buildTc_eq` — the bytes of a response, part by part.
-/
import Sagittarius.TtlScan
import Sagittarius.IpAddr

open BigEndian Delimited

namespace Codec

/-- A Rust panic, with its message. -/
inductive Panic where
  | expect (msg : String)
  | assert (msg : String)
  deriving DecidableEq, Repr

/-- `Option::expect` and `Result::expect`. -/
def expect {α : Type} (o : Option α) (msg : String) : Except Panic α :=
  match o with
  | some a => .ok a
  | none => .error (.expect msg)

/-- `u16::try_from` of a length. -/
def tryU16 (n : Nat) : Option UInt16 := if n < 65536 then some (UInt16.ofNat n) else none

/-! ### EDNS -/

def SERVER_UDP_PAYLOAD_SIZE : UInt16 := 1232

def EDNS_OPTION_COOKIE : UInt16 := 10

def EDNS_CLIENT_COOKIE_LEN : Nat := 8

def EDNS_COOKIE_MAX_LEN : Nat := 40

/-- `EdnsInfo`. -/
structure EdnsInfo where
  udpPayloadSize : UInt16
  cookie : Option Bytes
  deriving DecidableEq, Repr

namespace EdnsInfo

/-- `EdnsInfo::valid_cookie_len`. -/
def validCookieLen (length : Nat) : Bool :=
  length == EDNS_CLIENT_COOKIE_LEN ||
    (EDNS_CLIENT_COOKIE_LEN * 2 ≤ length && length ≤ EDNS_COOKIE_MAX_LEN)

/-- The loop of `EdnsInfo::extract_cookie`, over the bytes from `pos` on. -/
def extractCookieLoop : Nat → Bytes → Option Bytes
  | fuel + 1, c₁ :: c₀ :: l₁ :: l₀ :: data =>
    let code := ofBe16 c₁ c₀
    let length := (ofBe16 l₁ l₀).toNat
    if length > data.length then none
    else if code = EDNS_OPTION_COOKIE then
      if validCookieLen length then some (data.take length) else none
    else extractCookieLoop fuel (data.drop length)
  | _, _ => none

/-- `EdnsInfo::extract_cookie`; a round consumes at least four bytes. -/
def extractCookie (rdata : Bytes) : Option Bytes := extractCookieLoop rdata.length rdata

/-- The loop of `EdnsInfo::scan_inner` over the additional section. -/
def scanAdditional : Nat → ReadM (Option EdnsInfo)
  | 0 => pure none
  | n + 1 => do
    let rr ← Rr.read
    if rr.rtype = OPT_TYPE then pure (some ⟨rr.rclass, extractCookie rr.rdata⟩)
    else scanAdditional n

/-- `EdnsInfo::scan_inner`, over a reader at the start of the datagram. -/
def scanInner : ReadM (Option EdnsInfo) := do
  let header ← Header.read
  skipQuestions header.qdcount.toNat
  let _ ← Rr.readN (header.ancount.toNat + header.nscount.toNat)
  scanAdditional header.arcount.toNat

/-- `EdnsInfo::scan`: a query that does not parse this far carries no EDNS. -/
def scan (query : Query) : Option EdnsInfo :=
  match scanInner (Reader.new query.raw) with
  | .ok info _ => info
  | .error _ _ => none

/-- The cookie fits the option: what `write_opt` relies on. -/
def Valid (edns : EdnsInfo) : Prop :=
  ∀ cookie, edns.cookie = some cookie → validCookieLen cookie.length = true

theorem le_of_validCookieLen {n : Nat} (h : validCookieLen n = true) : n ≤ 40 := by
  rw [validCookieLen, Bool.or_eq_true, Bool.and_eq_true, beq_iff_eq, decide_eq_true_eq,
    decide_eq_true_eq, EDNS_CLIENT_COOKIE_LEN, EDNS_COOKIE_MAX_LEN] at h
  omega

theorem extractCookieLoop_valid : ∀ {fuel : Nat} {data cookie : Bytes},
    extractCookieLoop fuel data = some cookie → validCookieLen cookie.length = true := by
  intro fuel
  induction fuel with
  | zero =>
    intro data cookie h
    simp [extractCookieLoop] at h
  | succ fuel ih =>
    intro data cookie h
    unfold extractCookieLoop at h
    split at h
    · rename_i c₁ c₀ l₁ l₀ rest heq
      cases heq
      simp only at h
      split_ifs at h with hlong hcode hvalid
      · rw [Option.some_inj] at h
        rw [← h, List.length_take, Nat.min_eq_left (by omega)]
        exact hvalid
      · exact ih h
    · exact absurd h (by simp)

theorem scanAdditional_valid : ∀ {n : Nat} {r r' : Reader} {edns : EdnsInfo},
    scanAdditional n r = .ok (some edns) r' → edns.Valid := by
  intro n
  induction n with
  | zero =>
    intro r r' edns h
    rw [scanAdditional, pure_ok_iff] at h
    exact absurd h.1 (by simp)
  | succ n ih =>
    intro r r' edns h
    rw [scanAdditional, bind_ok_iff] at h
    obtain ⟨rr, r₁, _, h⟩ := h
    split_ifs at h with hopt
    · rw [pure_ok_iff, Option.some_inj] at h
      intro cookie hcookie
      rw [← h.1] at hcookie
      exact extractCookieLoop_valid hcookie
    · exact ih h

theorem scan_valid {query : Query} {edns : EdnsInfo} (h : scan query = some edns) :
    edns.Valid := by
  rw [scan] at h
  split at h
  · rename_i info r hinfo
    rw [h, scanInner, bind_ok_iff] at hinfo
    obtain ⟨_, _, _, hinfo⟩ := hinfo
    obtain ⟨_, _, _, hinfo⟩ := bind_ok_iff.mp hinfo
    obtain ⟨_, _, _, hinfo⟩ := bind_ok_iff.mp hinfo
    exact scanAdditional_valid hinfo
  · exact absurd h (by simp)

end EdnsInfo

/-! ### Responses -/

/-- `BlockMode`. -/
inductive BlockMode where
  | nxDomain
  | address (v4 : Ipv4Addr) (v6 : Ipv6Addr)
  deriving DecidableEq, Repr

/-- `AnswerRr`. -/
structure AnswerRr where
  rtype : UInt16
  ttl : UInt32
  rdata : Bytes
  deriving DecidableEq, Repr

/-- `LocalRecord`. -/
structure LocalRecord where
  rtype : UInt16
  rdata : Bytes
  deriving DecidableEq, Repr

namespace Response

/-- The owner of every answer: a pointer to the question name at offset 12. -/
def OWNER_PTR : Bytes := [0xC0, 0x0C]

def CLASS_IN : UInt16 := 1

/-- `Response::write_answer_rr`. -/
def writeAnswerRr (w : Writer) (rr : AnswerRr) : Writer :=
  (((((w.writeSlice OWNER_PTR).writeU16 rr.rtype).writeU16 CLASS_IN).writeU32 rr.ttl).writeU16
    (UInt16.ofNat rr.rdata.length)).writeSlice rr.rdata

/-- `Response::write_opt`. -/
def writeOpt (w : Writer) (edns : EdnsInfo) : Except Panic Writer := do
  let w := (((w.writeU8 0x00).writeU16 OPT_TYPE).writeU16 SERVER_UDP_PAYLOAD_SIZE).writeU32 0
  match edns.cookie with
  | some cookie => do
    let optLen ← expect (tryU16 (4 + cookie.length)) "validated EDNS COOKIE must fit in u16"
    let cookieLen ← expect (tryU16 cookie.length) "validated EDNS COOKIE must fit in u16"
    pure ((((w.writeU16 optLen).writeU16 EDNS_OPTION_COOKIE).writeU16 cookieLen).writeSlice cookie)
  | none => pure (w.writeU16 0)

/-- Append the OPT record, if the query carried EDNS. -/
def finishOpt (w : Writer) (edns : Option EdnsInfo) : Except Panic Bytes :=
  match edns with
  | some edns => do
    let w ← writeOpt w edns
    pure w.finish
  | none => pure w.finish

/-- `ARCOUNT`: one OPT record if the query carried EDNS. -/
def arcount (edns : Option EdnsInfo) : UInt16 := if edns.isSome then 1 else 0

/-- The header `Response::build_tc` writes. -/
def tcHeader (query : Query) (edns : Option EdnsInfo) : Header :=
  ((((((((Header.new query.header.id).withQr true).withTc true).withRd query.header.rd).withRa
    true).withRcode .noError).withQdcount 1).withArcount (arcount edns))

/-- `Response::build_tc`. -/
def buildTc (query : Query) (edns : Option EdnsInfo) : Except Panic Bytes :=
  let w := (tcHeader query edns).write Writer.new
  let w := w.writeSlice query.questionWire
  finishOpt w edns

/-- The header `Response::build` writes. -/
def buildHeader (query : Query) (rcode : Rcode) (aa : Bool) (answers : List AnswerRr)
    (edns : Option EdnsInfo) : Header :=
  let hdr := (((((((Header.new query.header.id).withQr true).withRd query.header.rd).withRa
    true).withRcode rcode).withQdcount 1).withAncount (UInt16.ofNat answers.length)).withArcount
    (arcount edns)
  if aa then hdr.withAa true else hdr

/-- `Response::build`. -/
def build (query : Query) (rcode : Rcode) (aa : Bool) (answers : List AnswerRr)
    (edns : Option EdnsInfo) : Except Panic Bytes :=
  let w := (buildHeader query rcode aa answers edns).write Writer.new
  let w := w.writeSlice query.questionWire
  let w := answers.foldl writeAnswerRr w
  finishOpt w edns

/-- `Response::build_authoritative`. -/
def buildAuthoritative (query : Query) (rcode : Rcode) (answers : List AnswerRr)
    (edns : Option EdnsInfo) : Except Panic Bytes :=
  build query rcode true answers edns

/-- `Response::block`. -/
def block (query : Query) (mode : BlockMode) (ttl : UInt32) (edns : Option EdnsInfo) :
    Except Panic Bytes :=
  match mode with
  | .nxDomain => build query .nxDomain false [] edns
  | .address v4 v6 =>
    match query.question.qtype with
    | .a => build query .noError false [⟨1, ttl, v4.octets⟩] edns
    | .aaaa => build query .noError false [⟨28, ttl, v6.octets⟩] edns
    | .ptr | .other _ => build query .noError false [] edns

/-- `Response::local`. -/
def localAnswer (query : Query) (records : List LocalRecord) (ttl : UInt32)
    (edns : Option EdnsInfo) : Except Panic Bytes :=
  buildAuthoritative query .noError (records.map (fun r => ⟨r.rtype, ttl, r.rdata⟩)) edns

/-- `Response::local_nodata`. -/
def localNodata (query : Query) (edns : Option EdnsInfo) : Except Panic Bytes :=
  buildAuthoritative query .noError [] edns

/-- `Response::local_ptr`. -/
def localPtr (query : Query) (target : Name) (ttl : UInt32) (edns : Option EdnsInfo) :
    Except Panic Bytes :=
  let rdata := (target.write Writer.new).finish
  buildAuthoritative query .noError [⟨12, ttl, rdata⟩] edns

/-- `Response::error_response`. -/
def errorResponse (query : Query) (rcode : Rcode) (edns : Option EdnsInfo) : Except Panic Bytes :=
  build query rcode false [] edns

/-- `Response::truncated`. -/
def truncated (query : Query) (edns : Option EdnsInfo) : Except Panic Bytes := buildTc query edns

/-- `Response::formerr`. -/
def formerr (id : UInt16) : Bytes :=
  ((((Header.new id).withQr true).withRcode .formErr).write Writer.new).finish

/-- `Response::notimp`. -/
def notimp (id : UInt16) : Bytes :=
  ((((Header.new id).withQr true).withRcode .notImpl).write Writer.new).finish

/-! ### The bytes of a response -/

/-- The bytes of an answer. -/
def answerBytes (rr : AnswerRr) : Bytes := OWNER_PTR ++ Rr.body rr.rtype CLASS_IN rr.ttl rr.rdata

/-- The data of an OPT record: the cookie option, if there is a cookie. -/
def optRdata : Option Bytes → Bytes
  | some cookie => be16 EDNS_OPTION_COOKIE ++ (be16 (UInt16.ofNat cookie.length) ++ cookie)
  | none => []

/-- The bytes of the OPT record, if there is one. -/
def optBytes : Option EdnsInfo → Bytes
  | some edns => 0 :: Rr.body OPT_TYPE SERVER_UDP_PAYLOAD_SIZE 0 (optRdata edns.cookie)
  | none => []

theorem writeAnswerRr_eq (w : Writer) (rr : AnswerRr) :
    writeAnswerRr w rr = w ++ answerBytes rr := by
  simp [writeAnswerRr, answerBytes, Rr.body, Writer.writeSlice, Writer.writeU16, Writer.writeU32]

theorem foldl_writeAnswerRr : ∀ (answers : List AnswerRr) (w : Writer),
    answers.foldl writeAnswerRr w = w ++ answers.flatMap answerBytes := by
  intro answers
  induction answers with
  | nil =>
    intro w
    simp
  | cons rr answers ih =>
    intro w
    rw [List.foldl_cons, ih, writeAnswerRr_eq, List.flatMap_cons, List.append_assoc]

theorem tryU16_of_le {n : Nat} (h : n ≤ 44) : tryU16 n = some (UInt16.ofNat n) :=
  if_pos (by omega)

/-- A validated cookie passes both `expect`s. -/
theorem writeOpt_eq (w : Writer) {edns : EdnsInfo} (h : edns.Valid) :
    writeOpt w edns = .ok (w ++ optBytes (some edns)) := by
  cases hcookie : edns.cookie with
  | none =>
    simp [writeOpt, hcookie, optBytes, optRdata, Rr.body, Writer.writeU8, Writer.writeU16,
      Writer.writeU32, pure, Except.pure]
  | some cookie =>
    have hlen := EdnsInfo.le_of_validCookieLen (h cookie hcookie)
    have hrdlen : (optRdata (some cookie)).length = 4 + cookie.length := by
      simp only [optRdata, List.length_append, be16_length]
      omega
    simp only [writeOpt, hcookie, tryU16_of_le (show 4 + cookie.length ≤ 44 by omega),
      tryU16_of_le (show cookie.length ≤ 44 by omega), expect, bind, Except.bind, pure,
      Except.pure, optBytes, Rr.body, hrdlen]
    simp [optRdata, Writer.writeU8, Writer.writeU16, Writer.writeU32, Writer.writeSlice]

theorem finishOpt_eq (w : Writer) {edns : Option EdnsInfo} (h : ∀ e, edns = some e → e.Valid) :
    finishOpt w edns = .ok (w ++ optBytes edns) := by
  cases edns with
  | none => simp [finishOpt, optBytes, Writer.finish, pure, Except.pure]
  | some e =>
    rw [finishOpt, writeOpt_eq w (h e rfl)]
    rfl

theorem build_eq {query : Query} {edns : Option EdnsInfo} (h : ∀ e, edns = some e → e.Valid)
    (rcode : Rcode) (aa : Bool) (answers : List AnswerRr) :
    build query rcode aa answers edns
      = .ok ((buildHeader query rcode aa answers edns).bytes ++
          (query.questionWire ++ (answers.flatMap answerBytes ++ optBytes edns))) := by
  rw [build, finishOpt_eq _ h, foldl_writeAnswerRr, Header.write_eq]
  simp [Writer.new, Writer.writeSlice]

theorem buildTc_eq {query : Query} {edns : Option EdnsInfo} (h : ∀ e, edns = some e → e.Valid) :
    buildTc query edns
      = .ok ((tcHeader query edns).bytes ++ (query.questionWire ++ optBytes edns)) := by
  rw [buildTc, finishOpt_eq _ h, Header.write_eq]
  simp [Writer.new, Writer.writeSlice]

end Response

end Codec

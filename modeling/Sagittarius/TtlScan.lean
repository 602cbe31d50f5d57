/-
Walking the resource records of a message (`codec/ttl.rs`).

The TTL scan of the cache and the EDNS scan of the synthesizer walk the record
sections the same way: skip the owner, read the fixed fields, read the data.
`Rr.read` is that step, `Rr.readN` the walk itself, and a scan is a fold over
the records walked:

* `Rr.readN_pos_le` — a walk over arbitrary bytes goes forwards only;
* `TtlScan.scan_ok_iff` — a scan is the fold of the records of a walk, and
  succeeds exactly where the walk does;
* `TtlScan.foldl_add_ttlOffsets` — the offsets are those of the non-OPT
  records, in order; `TtlScan.foldl_add_minTtl_isSome` — and there is a least
  TTL exactly when there is such a record.
-/
import Sagittarius.Message
import Sagittarius.NameWalk

open BigEndian Delimited

namespace Codec

/-- The TYPE of an OPT pseudo-record. -/
def OPT_TYPE : UInt16 := 41

/-- What a walk reads of a record: its fields, and where its TTL stands. -/
structure Rr where
  rtype : UInt16
  rclass : UInt16
  ttlOffset : Nat
  ttl : UInt32
  rdata : Bytes
  deriving DecidableEq, Repr

namespace Rr

/-- One record of a walk. -/
def read : ReadM Rr := do
  Name.skipRr
  let rtype ← Reader.readU16
  let rclass ← Reader.readU16
  let ttlOffset ← Reader.position
  let ttl ← Reader.readU32
  let rdlength ← Reader.readU16
  let rdata ← Reader.readSlice rdlength.toNat
  pure ⟨rtype, rclass, ttlOffset, ttl, rdata⟩

/-- A walk over `n` records. -/
def readN : Nat → ReadM (List Rr)
  | 0 => pure []
  | n + 1 => do
    let rr ← read
    let rrs ← readN n
    pure (rr :: rrs)

/-- The bytes of a record behind its owner. -/
def body (rtype rclass : UInt16) (ttl : UInt32) (rdata : Bytes) : Bytes :=
  be16 rtype ++ (be16 rclass ++ (be32 ttl ++ (be16 (UInt16.ofNat rdata.length) ++ rdata)))

@[simp] theorem body_length (rtype rclass : UInt16) (ttl : UInt32) (rdata : Bytes) :
    (body rtype rclass ttl rdata).length = 10 + rdata.length := by
  simp only [body, List.length_append, be16_length, be32_length]
  omega

/-- A record is read off its bytes, once its owner is skipped. -/
theorem read_body {r : Reader} {k : Nat} {rtype rclass : UInt16} {ttl : UInt32}
    {rdata rest : Bytes} (hskip : Name.skipRr r = .ok () (r.advance k))
    (hat : (r.advance k).At (body rtype rclass ttl rdata ++ rest)) (hlen : rdata.length < 65536) :
    read r = .ok ⟨rtype, rclass, r.pos + k + 4, ttl, rdata⟩ (r.advance (k + (10 + rdata.length))) ∧
      be32 ttl <+: r.buf.drop (r.pos + k + 4) := by
  simp only [body, List.append_assoc] at hat
  have h1 := hat.advance (be16_length rtype)
  have h2 := h1.advance (be16_length rclass)
  have h3 := h2.advance (be32_length ttl)
  have h4 := h3.advance (be16_length (UInt16.ofNat rdata.length))
  have hrdlen : (UInt16.ofNat rdata.length).toNat = rdata.length := by
    rw [UInt16.toNat_ofNat', Nat.mod_eq_of_lt hlen]
  have hpos : Reader.position (((r.advance k).advance 2).advance 2)
      = .ok (r.pos + k + 4) (((r.advance k).advance 2).advance 2) := rfl
  refine ⟨?_, h2.prefix⟩
  rw [read, bind_of_ok hskip, bind_of_ok hat.readU16, bind_of_ok h1.readU16, bind_of_ok hpos,
    bind_of_ok h2.readU32, bind_of_ok h3.readU16, hrdlen, bind_of_ok (h4.readSlice rfl)]
  simp only [Reader.advance_advance]
  show EStateM.Result.ok _ _ = _
  congr 2
  omega

theorem readN_add : ∀ {n m : Nat} {rrs rrs' : List Rr} {r r₁ r₂ : Reader},
    readN n r = .ok rrs r₁ → readN m r₁ = .ok rrs' r₂ → readN (n + m) r = .ok (rrs ++ rrs') r₂ := by
  intro n
  induction n with
  | zero =>
    intro m rrs rrs' r r₁ r₂ h h'
    rw [readN, pure_ok_iff] at h
    obtain ⟨rfl, rfl⟩ := h
    rw [Nat.zero_add]
    exact h'
  | succ n ih =>
    intro m rrs rrs' r r₁ r₂ h h'
    rw [readN, bind_ok_iff] at h
    obtain ⟨rr, r₃, hrr, h⟩ := h
    obtain ⟨rest, r₄, hrest, h⟩ := bind_ok_iff.mp h
    obtain ⟨rfl, rfl⟩ := pure_ok_iff.mp h
    rw [Nat.succ_add, readN, bind_of_ok hrr, bind_of_ok (ih hrest h')]
    rfl

/-- A record is read forwards, and its TTL stands behind the cursor. -/
theorem read_pos_le {r r' : Reader} {rr : Rr} (h : read r = .ok rr r') :
    r.pos ≤ rr.ttlOffset ∧ r.pos ≤ r'.pos := by
  rw [read, bind_ok_iff] at h
  obtain ⟨_, r₁, hskip, h⟩ := h
  obtain ⟨rtype, _, htype, h⟩ := bind_ok_iff.mp h
  obtain ⟨rfl, -⟩ := Reader.readU16_ok_iff.mp htype
  obtain ⟨rclass, _, hclass, h⟩ := bind_ok_iff.mp h
  obtain ⟨rfl, -⟩ := Reader.readU16_ok_iff.mp hclass
  obtain ⟨pos, r₂, hpos, h⟩ := bind_ok_iff.mp h
  obtain ⟨rfl, rfl⟩ : r₁.pos + 2 + 2 = pos ∧ (r₁.advance 2).advance 2 = r₂ := by
    simpa [Reader.position] using hpos
  obtain ⟨ttl, _, httl, h⟩ := bind_ok_iff.mp h
  obtain ⟨rfl, -⟩ := Reader.readU32_ok_iff.mp httl
  obtain ⟨rdlength, _, hlen, h⟩ := bind_ok_iff.mp h
  obtain ⟨rfl, -⟩ := Reader.readU16_ok_iff.mp hlen
  obtain ⟨rdata, _, hdata, h⟩ := bind_ok_iff.mp h
  obtain ⟨rfl, -⟩ := Reader.readSlice_ok_iff.mp hdata
  obtain ⟨rfl, rfl⟩ := pure_ok_iff.mp h
  have hle := Name.skipRr_pos_le hskip
  simp only [Reader.advance_pos]
  omega

/-- So does a walk: every TTL it finds stands behind where it started. -/
theorem readN_pos_le : ∀ {n : Nat} {rrs : List Rr} {r r' : Reader},
    readN n r = .ok rrs r' → ∀ rr ∈ rrs, r.pos ≤ rr.ttlOffset := by
  intro n
  induction n with
  | zero =>
    intro rrs r r' h rr hrr
    obtain ⟨rfl, rfl⟩ := pure_ok_iff.mp h
    cases hrr
  | succ n ih =>
    intro rrs r r' h rr hrr
    rw [readN, bind_ok_iff] at h
    obtain ⟨first, r₁, hfirst, h⟩ := h
    obtain ⟨rest, r₂, hrest, h⟩ := bind_ok_iff.mp h
    obtain ⟨rfl, rfl⟩ := pure_ok_iff.mp h
    have hle := read_pos_le hfirst
    rcases List.mem_cons.mp hrr with rfl | hrr
    · exact hle.1
    · have := ih hrest rr hrr
      omega

end Rr

/-- Skip `n` questions: name, type, class. -/
def skipQuestions : Nat → ReadM Unit
  | 0 => pure ()
  | n + 1 => do
    Name.skipRr
    let _ ← Reader.readU16
    let _ ← Reader.readU16
    skipQuestions n

theorem skipQuestions_pos_le : ∀ {n : Nat} {r r' : Reader},
    skipQuestions n r = .ok () r' → r.pos ≤ r'.pos := by
  intro n
  induction n with
  | zero =>
    intro r r' h
    obtain ⟨_, rfl⟩ := pure_ok_iff.mp h
    exact Nat.le_refl _
  | succ n ih =>
    intro r r' h
    rw [skipQuestions, bind_ok_iff] at h
    obtain ⟨_, r₁, hskip, h⟩ := h
    obtain ⟨qtype, _, htype, h⟩ := bind_ok_iff.mp h
    obtain ⟨rfl, -⟩ := Reader.readU16_ok_iff.mp htype
    obtain ⟨qclass, _, hclass, h⟩ := bind_ok_iff.mp h
    obtain ⟨rfl, -⟩ := Reader.readU16_ok_iff.mp hclass
    have hle := Name.skipRr_pos_le hskip
    have hrest := ih h
    simp only [Reader.advance_pos] at hrest
    omega

/-- The walk over all records of a message. -/
def Rr.walk : ReadM (List Rr) := do
  let header ← Header.read
  skipQuestions header.qdcount.toNat
  Rr.readN (header.ancount.toNat + header.nscount.toNat + header.arcount.toNat)

/-- The TTLs of a message stand behind its header. -/
theorem Rr.walk_offset_ge {message : Bytes} {rrs : List Rr} {r' : Reader}
    (h : Rr.walk (Reader.new message) = .ok rrs r') : ∀ rr ∈ rrs, 12 ≤ rr.ttlOffset := by
  intro rr hrr
  rw [Rr.walk, bind_ok_iff] at h
  obtain ⟨header, r₁, hhdr, h⟩ := h
  obtain ⟨rfl, -⟩ := Header.read_ok_iff.mp hhdr
  obtain ⟨_, r₂, hq, hrrs⟩ := bind_ok_iff.mp h
  have hquestions := skipQuestions_pos_le hq
  have hrecords := Rr.readN_pos_le hrrs rr hrr
  simp only [Reader.advance_pos] at hquestions
  omega

/-- `TtlScan`. -/
structure TtlScan where
  minTtl : Option UInt32
  ttlOffsets : List Nat
  deriving DecidableEq, Repr

namespace TtlScan

/-- What the scan keeps of one record: nothing of an OPT, else its TTL and
where it stands. -/
def add (scan : TtlScan) (rr : Rr) : TtlScan :=
  if rr.rtype = OPT_TYPE then scan
  else
    { minTtl := some (match scan.minTtl with
        | none => rr.ttl
        | some prev => min prev rr.ttl)
      ttlOffsets := scan.ttlOffsets ++ [rr.ttlOffset] }

/-- The record loop of `TtlScan::scan`. -/
def loop : Nat → TtlScan → ReadM TtlScan
  | 0, scan => pure scan
  | n + 1, scan => do
    let rr ← Rr.read
    loop n (scan.add rr)

/-- The body of `TtlScan::scan`, with the reader it leaves behind. -/
def walk : ReadM TtlScan := do
  let header ← Header.read
  skipQuestions header.qdcount.toNat
  let rrCount := header.ancount.toNat + header.nscount.toNat + header.arcount.toNat
  loop rrCount ⟨none, []⟩

/-- `TtlScan::scan`. -/
def scan (message : Bytes) : Except Error TtlScan :=
  match walk (Reader.new message) with
  | .ok scan _ => .ok scan
  | .error e _ => .error e

/-- The scan loop returns the fold of the records a walk reads, and fails where
the walk fails. -/
theorem loop_ok_iff : ∀ {n : Nat} {s s' : TtlScan} {r r' : Reader},
    loop n s r = .ok s' r' ↔ ∃ rrs, Rr.readN n r = .ok rrs r' ∧ s' = rrs.foldl add s := by
  intro n
  induction n with
  | zero =>
    intro s s' r r'
    constructor
    · intro h
      obtain ⟨rfl, rfl⟩ := pure_ok_iff.mp h
      exact ⟨[], rfl, rfl⟩
    · rintro ⟨rrs, h, rfl⟩
      obtain ⟨rfl, rfl⟩ := pure_ok_iff.mp h
      rfl
  | succ n ih =>
    intro s s' r r'
    rw [loop, bind_ok_iff]
    constructor
    · rintro ⟨rr, r₁, hrr, h⟩
      obtain ⟨rrs, hrest, rfl⟩ := ih.mp h
      refine ⟨rr :: rrs, ?_, rfl⟩
      rw [Rr.readN, bind_of_ok hrr, bind_of_ok hrest]
      rfl
    · rintro ⟨rrs, h, rfl⟩
      rw [Rr.readN, bind_ok_iff] at h
      obtain ⟨rr, r₁, hrr, h⟩ := h
      obtain ⟨rest, r₂, hrest, h⟩ := bind_ok_iff.mp h
      obtain ⟨rfl, rfl⟩ := pure_ok_iff.mp h
      exact ⟨rr, r₁, hrr, ih.mpr ⟨rest, hrest, rfl⟩⟩

/-- A message is scanned exactly when all its records can be walked. -/
theorem scan_ok_iff {message : Bytes} {s : TtlScan} : scan message = .ok s ↔
    ∃ rrs r', Rr.walk (Reader.new message) = .ok rrs r' ∧ s = rrs.foldl add ⟨none, []⟩ := by
  have hwalk : scan message = .ok s ↔ ∃ r', walk (Reader.new message) = .ok s r' := by
    rw [scan]
    cases walk (Reader.new message) with
    | ok s' r' => simp
    | error e r' => simp
  rw [hwalk]
  simp only [walk, Rr.walk, bind_ok_iff, loop_ok_iff]
  constructor
  · rintro ⟨r', header, r₁, hhdr, _, r₂, hq, rrs, hrrs, rfl⟩
    exact ⟨rrs, r', ⟨header, r₁, hhdr, (), r₂, hq, hrrs⟩, rfl⟩
  · rintro ⟨rrs, r', ⟨header, r₁, hhdr, _, r₂, hq, hrrs⟩, rfl⟩
    exact ⟨r', header, r₁, hhdr, (), r₂, hq, rrs, hrrs, rfl⟩

/-- There is a least TTL exactly when there is a record that is no OPT. -/
theorem foldl_add_minTtl_isSome : ∀ (rrs : List Rr) (s : TtlScan),
    (rrs.foldl add s).minTtl.isSome = true ↔
      s.minTtl.isSome = true ∨ ∃ rr ∈ rrs, rr.rtype ≠ OPT_TYPE := by
  intro rrs
  induction rrs with
  | nil =>
    intro s
    simp
  | cons rr rrs ih =>
    intro s
    rw [List.foldl_cons, ih, add]
    by_cases hopt : rr.rtype = OPT_TYPE
    · simp [hopt]
    · simp [hopt]

/-- The offsets kept are those of the non-OPT records, in order. -/
theorem foldl_add_ttlOffsets : ∀ (rrs : List Rr) (s : TtlScan),
    (rrs.foldl add s).ttlOffsets
      = s.ttlOffsets ++ (rrs.filter (fun rr => rr.rtype ≠ OPT_TYPE)).map Rr.ttlOffset := by
  intro rrs
  induction rrs with
  | nil =>
    intro s
    simp
  | cons rr rrs ih =>
    intro s
    rw [List.foldl_cons, ih, add]
    by_cases hopt : rr.rtype = OPT_TYPE
    · simp [hopt]
    · simp [hopt]

end TtlScan

end Codec

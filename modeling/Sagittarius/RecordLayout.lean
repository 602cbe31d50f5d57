/-
Where the records of a message stand.

`InRow R pos as stop` says that the things `as` stand one behind the other from
`pos` to `stop`.  A message that can be walked is its header, a row of questions
and a row of records (`Layout`), over whatever bytes:

* `Rr.read_ok_iff`, `readN_ok_iff`, `skipQuestions_ok_iff` — what the readers
  accept, as rows;
* `TtlScan.scan_ok_iff_layout` — a scan succeeds exactly on a layout, and keeps
  what the fold over its records keeps.
-/
import Sagittarius.TtlScan

open BigEndian Delimited

/-! ### Things in a row -/

/-- The things `as` stand one behind the other, from `pos` to `stop`. -/
inductive InRow {α : Type} (R : Nat → α → Nat → Prop) : Nat → List α → Nat → Prop
  | nil {pos : Nat} : InRow R pos [] pos
  | cons {pos next stop : Nat} {a : α} {as : List α} (head : R pos a next)
      (tail : InRow R next as stop) : InRow R pos (a :: as) stop

namespace InRow

variable {α : Type} {R : Nat → α → Nat → Prop} {pos stop : Nat} {as : List α}

theorem cons_iff {a : α} :
    InRow R pos (a :: as) stop ↔ ∃ next, R pos a next ∧ InRow R next as stop := by
  constructor
  · rintro (_ | ⟨head, tail⟩)
    exact ⟨_, head, tail⟩
  · rintro ⟨next, head, tail⟩
    exact .cons head tail

theorem nil_iff : InRow R pos [] stop ↔ stop = pos := by
  constructor
  · rintro ⟨⟩
    rfl
  · rintro rfl
    exact .nil

theorem append_iff {bs : List α} :
    InRow R pos (as ++ bs) stop ↔ ∃ mid, InRow R pos as mid ∧ InRow R mid bs stop := by
  induction as generalizing pos with
  | nil =>
    simp only [List.nil_append, nil_iff]
    exact ⟨fun h => ⟨pos, rfl, h⟩, fun ⟨_, h, h'⟩ => h ▸ h'⟩
  | cons a as ih =>
    simp only [List.cons_append, cons_iff, ih]
    constructor
    · rintro ⟨next, hhead, mid, h, h'⟩
      exact ⟨mid, ⟨next, hhead, h⟩, h'⟩
    · rintro ⟨mid, ⟨next, hhead, h⟩, h'⟩
      exact ⟨next, hhead, mid, h, h'⟩

theorem pos_le (h : InRow R pos as stop) (hfwd : ∀ p a q, R p a q → p ≤ q) : pos ≤ stop := by
  induction h with
  | nil => exact Nat.le_refl _
  | cons head _ ih => exact Nat.le_trans (hfwd _ _ _ head) ih

/-- Every thing of a row stands between its ends. -/
theorem exists_of_mem (h : InRow R pos as stop) (hfwd : ∀ p a q, R p a q → p ≤ q) {a : α}
    (ha : a ∈ as) : ∃ p q, R p a q ∧ pos ≤ p ∧ q ≤ stop := by
  induction h with
  | nil => cases ha
  | @cons pos next stop b as head tail ih =>
    rcases List.mem_cons.mp ha with rfl | ha
    · exact ⟨pos, next, head, Nat.le_refl _, tail.pos_le hfwd⟩
    · obtain ⟨p, q, hR, hp, hq⟩ := ih ha
      exact ⟨p, q, hR, Nat.le_trans (hfwd _ _ _ head) hp, hq⟩

end InRow

namespace Codec

/-! ### Names, questions and records at their places -/

/-- A name of a message: where it starts, what it spells, and where it ends. -/
structure NameAt where
  pos : Nat
  labels : List Bytes
  stop : Nat

/-- A record with its owner. -/
structure OwnedRr where
  owner : NameAt
  rr : Rr

/-- A question at `pos`: its name, and four bytes of type and class. -/
structure QuestionAt (buf : Bytes) (pos : Nat) (name : NameAt) (next : Nat) : Prop where
  pos_eq : name.pos = pos
  skips : Name.Skips buf pos name.labels name.stop
  next_eq : next = name.stop + 4
  next_le : next ≤ buf.length

/-- A record at `pos`: its owner, its fields and its data. -/
structure RecordAt (buf : Bytes) (pos : Nat) (record : OwnedRr) (next : Nat) : Prop where
  pos_eq : record.owner.pos = pos
  skips : Name.Skips buf pos record.owner.labels record.owner.stop
  ttlOffset_eq : record.rr.ttlOffset = record.owner.stop + 4
  body : Rr.body record.rr.rtype record.rr.rclass record.rr.ttl record.rr.rdata
    <+: buf.drop record.owner.stop
  rdata_lt : record.rr.rdata.length < 65536
  next_eq : next = record.owner.stop + (10 + record.rr.rdata.length)

/-- A message that can be walked: its header, its questions and its records. -/
structure Layout (m : Bytes) (header : Header) (questions : List NameAt)
    (records : List OwnedRr) : Prop where
  header_bytes : header.bytes <+: m
  qdcount_eq : questions.length = header.qdcount.toNat
  count_eq : records.length
    = header.ancount.toNat + header.nscount.toNat + header.arcount.toNat
  rows : ∃ mid stop, InRow (QuestionAt m) 12 questions mid ∧ InRow (RecordAt m) mid records stop

theorem QuestionAt.le {buf : Bytes} {pos next : Nat} {name : NameAt}
    (h : QuestionAt buf pos name next) : pos + 5 ≤ next := by
  have := h.skips.pos_lt
  have := h.next_eq
  omega

theorem RecordAt.le {buf : Bytes} {pos next : Nat} {record : OwnedRr}
    (h : RecordAt buf pos record next) :
    pos + 5 ≤ record.rr.ttlOffset ∧ record.rr.ttlOffset + 6 ≤ next ∧ next ≤ buf.length := by
  have hlt := h.skips.pos_lt
  have hoff := h.ttlOffset_eq
  have hnext := h.next_eq
  have hlen := h.body.length_le
  simp only [Rr.body_length, List.length_drop] at hlen
  omega

theorem QuestionAt.forward {buf : Bytes} (pos : Nat) (name : NameAt) (next : Nat)
    (h : QuestionAt buf pos name next) : pos ≤ next := by
  have := h.le
  omega

theorem RecordAt.forward {buf : Bytes} (pos : Nat) (record : OwnedRr) (next : Nat)
    (h : RecordAt buf pos record next) : pos ≤ next := by
  have := h.le
  omega

/-- A body stands where its fields and its data do. -/
theorem Rr.body_at_iff {rtype rclass : UInt16} {ttl : UInt32} {rdata buf : Bytes} {pos : Nat} :
    Rr.body rtype rclass ttl rdata <+: buf.drop pos ↔
      be16 rtype <+: buf.drop pos ∧ be16 rclass <+: buf.drop (pos + 2) ∧
      be32 ttl <+: buf.drop (pos + 2 + 2) ∧
      be16 (UInt16.ofNat rdata.length) <+: buf.drop (pos + 2 + 2 + 4) ∧
      rdata <+: buf.drop (pos + 2 + 2 + 4 + 2) := by
  simp only [Rr.body, append_prefix_iff (be16_length _), append_prefix_iff (be32_length _),
    List.drop_drop]

/-- The bytes of the TTL stand at its offset. -/
theorem RecordAt.ttl_bytes {buf : Bytes} {pos next : Nat} {record : OwnedRr}
    (h : RecordAt buf pos record next) : be32 record.rr.ttl <+: buf.drop record.rr.ttlOffset := by
  obtain ⟨-, -, httl, -, -⟩ := Rr.body_at_iff.mp h.body
  rw [h.ttlOffset_eq]
  exact httl

/-! ### What the readers accept -/

theorem Rr.read_ok_iff {r r' : Reader} {rr : Rr} : Rr.read r = .ok rr r' ↔
    ∃ owner next, RecordAt r.buf r.pos ⟨owner, rr⟩ next ∧ r' = ⟨r.buf, next⟩ := by
  constructor
  · intro h
    rw [Rr.read, bind_ok_iff] at h
    obtain ⟨_, r₁, hskip, h⟩ := h
    obtain ⟨ls, stop, hskips, rfl⟩ := Name.skipRr_ok_iff.mp hskip
    obtain ⟨rtype, _, htype, h⟩ := bind_ok_iff.mp h
    obtain ⟨rfl, htypeAt⟩ := Reader.readU16_ok_iff.mp htype
    obtain ⟨rclass, _, hclass, h⟩ := bind_ok_iff.mp h
    obtain ⟨rfl, hclassAt⟩ := Reader.readU16_ok_iff.mp hclass
    obtain ⟨pos, r₂, hpos, h⟩ := bind_ok_iff.mp h
    obtain ⟨rfl, rfl⟩ := Reader.position_ok_iff.mp hpos
    obtain ⟨ttl, _, httl, h⟩ := bind_ok_iff.mp h
    obtain ⟨rfl, httlAt⟩ := Reader.readU32_ok_iff.mp httl
    obtain ⟨rdlength, _, hlen, h⟩ := bind_ok_iff.mp h
    obtain ⟨rfl, hlenAt⟩ := Reader.readU16_ok_iff.mp hlen
    obtain ⟨rdata, _, hdata, h⟩ := bind_ok_iff.mp h
    obtain ⟨rfl, hend, hrdlen, hdataAt⟩ := Reader.readSlice_ok_iff.mp hdata
    obtain ⟨rfl, rfl⟩ := pure_ok_iff.mp h
    -- The length field is the length of the data that was read.
    have hword : UInt16.ofNat rdata.length = rdlength := by rw [hrdlen, UInt16.ofNat_toNat]
    refine ⟨⟨r.pos, ls, stop⟩, stop + (10 + rdata.length), ⟨rfl, hskips, rfl, ?_, ?_, rfl⟩, ?_⟩
    · rw [Rr.body_at_iff, hword]
      exact ⟨htypeAt, hclassAt, httlAt, hlenAt, hdataAt⟩
    · rw [hrdlen]
      exact rdlength.toNat_lt
    · rw [hrdlen]
      simp only [Reader.advance, Reader.mk.injEq, true_and]
      omega
  · rintro ⟨⟨pos, ls, stop⟩, next, hat, rfl⟩
    have hend := hat.le
    obtain ⟨rfl, hskips, hoff, ⟨rest, hrest⟩, hlen, rfl⟩ := hat
    simp only at hend hskips hoff hrest hlen
    -- The other way, the skip ends at the body and the rest is its round trip.
    obtain ⟨k, rfl⟩ := Nat.exists_eq_add_of_lt hskips.pos_lt
    have hskip : Name.skipRr r = .ok () (r.advance (k + 1)) :=
      Name.skipRr_ok_iff.mpr ⟨ls, _, hskips, rfl⟩
    have hat : (r.advance (k + 1)).At (Rr.body rr.rtype rr.rclass rr.ttl rr.rdata ++ rest) := by
      refine ⟨?_, hrest.symm⟩
      show r.pos + (k + 1) ≤ r.buf.length
      omega
    rw [(Rr.read_body hskip hat hlen).1]
    have hpos : r.pos + (k + 1) + 4 = rr.ttlOffset := by omega
    rw [hpos]
    simp only [Reader.advance, EStateM.Result.ok.injEq, true_and, Reader.mk.injEq]
    omega

/-- A walk over `n` records reads a row of `n` records. -/
theorem Rr.readN_ok_iff : ∀ {n : Nat} {rrs : List Rr} {r r' : Reader},
    Rr.readN n r = .ok rrs r' ↔ ∃ records stop, InRow (RecordAt r.buf) r.pos records stop ∧
      records.length = n ∧ rrs = records.map OwnedRr.rr ∧ r' = ⟨r.buf, stop⟩ := by
  intro n
  induction n with
  | zero =>
    intro rrs r r'
    constructor
    · intro h
      obtain ⟨rfl, rfl⟩ := pure_ok_iff.mp h
      exact ⟨[], r.pos, .nil, rfl, rfl, rfl⟩
    · rintro ⟨records, stop, hrow, hlen, rfl, rfl⟩
      obtain rfl := List.length_eq_zero_iff.mp hlen
      obtain rfl := InRow.nil_iff.mp hrow
      rfl
  | succ n ih =>
    intro rrs r r'
    rw [Rr.readN, bind_ok_iff]
    constructor
    · rintro ⟨rr, r₁, hrr, h⟩
      obtain ⟨rest, r₂, hrest, h⟩ := bind_ok_iff.mp h
      obtain ⟨rfl, rfl⟩ := pure_ok_iff.mp h
      obtain ⟨owner, next, hat, rfl⟩ := Rr.read_ok_iff.mp hrr
      obtain ⟨records, stop, hrow, hlen, rfl, rfl⟩ := ih.mp hrest
      exact ⟨⟨owner, rr⟩ :: records, stop, .cons hat hrow, by simp [hlen], rfl, rfl⟩
    · rintro ⟨records, stop, hrow, hlen, rfl, rfl⟩
      obtain ⟨⟨owner, rr⟩, records, rfl⟩ := List.exists_cons_of_length_eq_add_one hlen
      obtain ⟨next, hat, hrow⟩ := InRow.cons_iff.mp hrow
      refine ⟨rr, ⟨r.buf, next⟩, Rr.read_ok_iff.mpr ⟨owner, next, hat, rfl⟩, ?_⟩
      rw [bind_of_ok (ih.mpr ⟨records, stop, hrow, by simpa using hlen, rfl, rfl⟩)]
      rfl

/-- Skipping `n` questions passes a row of `n` questions. -/
theorem skipQuestions_ok_iff : ∀ {n : Nat} {r r' : Reader},
    skipQuestions n r = .ok () r' ↔ ∃ questions stop,
      InRow (QuestionAt r.buf) r.pos questions stop ∧ questions.length = n ∧
        r' = ⟨r.buf, stop⟩ := by
  intro n
  induction n with
  | zero =>
    intro r r'
    constructor
    · intro h
      obtain ⟨_, rfl⟩ := pure_ok_iff.mp h
      exact ⟨[], r.pos, .nil, rfl, rfl⟩
    · rintro ⟨questions, stop, hrow, hlen, rfl⟩
      obtain rfl := List.length_eq_zero_iff.mp hlen
      obtain rfl := InRow.nil_iff.mp hrow
      rfl
  | succ n ih =>
    intro r r'
    rw [skipQuestions, bind_ok_iff]
    constructor
    · rintro ⟨_, r₁, hskip, h⟩
      obtain ⟨ls, stop, hskips, rfl⟩ := Name.skipRr_ok_iff.mp hskip
      obtain ⟨qtype, _, htype, h⟩ := bind_ok_iff.mp h
      obtain ⟨rfl, -⟩ := Reader.readU16_ok_iff.mp htype
      obtain ⟨qclass, _, hclass, h⟩ := bind_ok_iff.mp h
      obtain ⟨rfl, hclassAt⟩ := Reader.readU16_ok_iff.mp hclass
      obtain ⟨questions, stop', hrow, hlen, rfl⟩ := ih.mp h
      have hle := hclassAt.length_le
      simp only [Reader.advance_buf, Reader.advance_pos, be16_length, List.length_drop] at hle
      have hat : QuestionAt r.buf r.pos ⟨r.pos, ls, stop⟩ (stop + 2 + 2) :=
        ⟨rfl, hskips, rfl, by omega⟩
      exact ⟨_ :: questions, stop', .cons hat hrow, by simp [hlen], rfl⟩
    · rintro ⟨questions, stop, hrow, hlen, rfl⟩
      obtain ⟨⟨pos, ls, end'⟩, questions, rfl⟩ := List.exists_cons_of_length_eq_add_one hlen
      obtain ⟨next, ⟨rfl, hskips, rfl, hle⟩, hrow⟩ := InRow.cons_iff.mp hrow
      simp only at hskips hle hrow
      -- Four bytes are there, and any two of them are a word.
      have hword : ∀ k, k + 2 ≤ r.buf.length → ∃ v, Reader.readU16 ⟨r.buf, k⟩
          = .ok v ⟨r.buf, k + 2⟩ := by
        intro k hk
        obtain ⟨a, b, rest, hdrop⟩ : ∃ a b rest, r.buf.drop k = a :: b :: rest := by
          have htwo : 2 ≤ (r.buf.drop k).length := by
            rw [List.length_drop]
            omega
          rcases hd : r.buf.drop k with - | ⟨a, - | ⟨b, rest⟩⟩
          · simp [hd] at htwo
          · simp [hd] at htwo
          · exact ⟨a, b, rest, rfl⟩
        refine ⟨ofBe16 a b, Reader.readU16_ok_iff.mpr ⟨rfl, ?_⟩⟩
        show _ <+: r.buf.drop k
        rw [be16_ofBe16, hdrop]
        exact ⟨rest, rfl⟩
      obtain ⟨qtype, htype⟩ := hword end' (by omega)
      obtain ⟨qclass, hclass⟩ := hword (end' + 2) (by omega)
      refine ⟨(), ⟨r.buf, end'⟩, Name.skipRr_ok_iff.mpr ⟨ls, end', hskips, rfl⟩, ?_⟩
      rw [bind_of_ok htype, bind_of_ok hclass]
      exact ih.mpr ⟨questions, stop, hrow, by simpa using hlen, rfl⟩

/-- The walk over a message reads the records of its layout. -/
theorem Rr.walk_ok_iff {m : Bytes} {rrs : List Rr} :
    (∃ r', Rr.walk (Reader.new m) = .ok rrs r') ↔
      ∃ header questions records, Layout m header questions records ∧
        rrs = records.map OwnedRr.rr := by
  simp only [Rr.walk, bind_ok_iff]
  constructor
  · rintro ⟨r', header, _, hhdr, _, _, hq, hrrs⟩
    obtain ⟨rfl, hbytes⟩ := Header.read_ok_iff.mp hhdr
    obtain ⟨questions, mid, hqrow, hqlen, rfl⟩ := skipQuestions_ok_iff.mp hq
    obtain ⟨records, stop, hrow, hlen, rfl, rfl⟩ := Rr.readN_ok_iff.mp hrrs
    refine ⟨header, questions, records, ⟨hbytes, hqlen, hlen, mid, stop, ?_, hrow⟩, rfl⟩
    exact hqrow
  · rintro ⟨header, questions, records, ⟨hbytes, hqlen, hlen, mid, stop, hqrow, hrow⟩, rfl⟩
    refine ⟨⟨m, stop⟩, header, ⟨m, 12⟩, Header.read_ok_iff.mpr ⟨rfl, hbytes⟩, (), ⟨m, mid⟩, ?_, ?_⟩
    · exact skipQuestions_ok_iff.mpr ⟨questions, mid, hqrow, hqlen, rfl⟩
    · exact Rr.readN_ok_iff.mpr ⟨records, stop, hrow, hlen, rfl, rfl⟩

namespace TtlScan

/-- **A scan succeeds exactly on a layout**, and keeps what the fold over its
records keeps. -/
theorem scan_ok_iff_layout {m : Bytes} {s : TtlScan} : scan m = .ok s ↔
    ∃ header questions records, Layout m header questions records ∧
      s = (records.map OwnedRr.rr).foldl add ⟨none, []⟩ := by
  rw [scan_ok_iff]
  constructor
  · rintro ⟨rrs, r', hwalk, rfl⟩
    obtain ⟨header, questions, records, hlayout, rfl⟩ := Rr.walk_ok_iff.mp ⟨r', hwalk⟩
    exact ⟨header, questions, records, hlayout, rfl⟩
  · rintro ⟨header, questions, records, hlayout, rfl⟩
    obtain ⟨r', hwalk⟩ := Rr.walk_ok_iff.mpr ⟨header, questions, records, hlayout, rfl⟩
    exact ⟨_, r', hwalk, rfl⟩

end TtlScan

end Codec

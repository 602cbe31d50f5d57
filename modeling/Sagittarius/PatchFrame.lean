/-
What the scan finds and what the patch of a cached response writes.

The cache keeps the offsets of a scan and later writes to them blindly.  The
offsets are those of a row of records (`RecordLayout`), so they are far enough
apart that no write touches another field:

* `pairwise_ttlOffset` — the TTLs of a row are at least 11 bytes apart;
* `foldl_decrementTtl` — the TTL loop over separate offsets, one word at a time;
* `Patched` — the frame of a patch: the id, the TTLs, and nothing else;
* `scan_and_patch_frame` — what a scan finds, and that its patch has that frame.
-/
import Sagittarius.RecordLayout
import Sagittarius.DnsCache

open BigEndian Codec

namespace Codec

/-! ### Words in a message -/

/-- The big-endian word at an offset. -/
def u32At (m : Bytes) (o : Nat) : UInt32 :=
  ofBe32 (m.getD o 0) (m.getD (o + 1) 0) (m.getD (o + 2) 0) (m.getD (o + 3) 0)

/-- A word is determined by its four bytes. -/
theorem u32At_congr {m m' : Bytes} {o o' : Nat} (h : ∀ k < 4, m'[o' + k]? = m[o + k]?) :
    u32At m' o' = u32At m o := by
  have hget : ∀ k < 4, m'.getD (o' + k) 0 = m.getD (o + k) 0 := by
    intro k hk
    rw [List.getD_eq_getElem?_getD, h k hk, ← List.getD_eq_getElem?_getD]
  rw [u32At, u32At, hget 1 (by decide), hget 2 (by decide), hget 3 (by decide)]
  rw [show m'.getD o' 0 = m.getD o 0 from hget 0 (by decide)]

theorem u32At_of_bytes {m : Bytes} {o : Nat} {v : UInt32} (h : be32 v <+: m.drop o) :
    u32At m o = v := by
  obtain ⟨t, ht⟩ := h
  have hword : u32At m o = u32At (be32 v ++ t) 0 := by
    refine u32At_congr (fun k _ => ?_)
    rw [ht, List.getElem?_drop, Nat.zero_add]
  rw [hword]
  exact ofBe32_be32 v

/-- The rest of a message from a word on, word and rest apart. -/
theorem drop_eq_u32At {m : Bytes} {o : Nat} (h : o + 4 ≤ m.length) :
    ∃ a b c d, m.drop o = a :: b :: c :: d :: m.drop (o + 4) ∧ u32At m o = ofBe32 a b c d := by
  have hlen := List.length_drop (i := o) (l := m)
  match hd : m.drop o with
  | a :: b :: c :: d :: rest =>
    refine ⟨a, b, c, d, ?_, u32At_of_bytes ⟨rest, ?_⟩⟩
    · rw [← List.drop_drop, hd]
      rfl
    · rw [be32_ofBe32, hd]
      rfl
  | [] | [_] | [_, _] | [_, _, _] =>
    rw [hd] at hlen
    simp only [List.length_cons, List.length_nil] at hlen
    omega

/-! ### What a scan finds -/

/-- The TTLs of a row of records are at least 11 bytes apart. -/
theorem pairwise_ttlOffset {m : Bytes} {pos stop : Nat} {records : List OwnedRr}
    (h : InRow (RecordAt m) pos records stop) :
    (records.map (·.rr.ttlOffset)).Pairwise (fun o o' => o + 11 ≤ o') := by
  induction h with
  | nil => exact .nil
  | @cons pos next stop record records head tail ih =>
    rw [List.map_cons]
    refine .cons ?_ ih
    intro o' ho'
    obtain ⟨record', hmem, rfl⟩ := List.mem_map.mp ho'
    obtain ⟨p, q, hat, hle, -⟩ := tail.exists_of_mem RecordAt.forward hmem
    have h₁ := head.le
    have h₂ := hat.le
    omega

/-- The least TTL kept is the least of those before and those of the non-OPT
records. -/
theorem TtlScan.foldl_add_minTtl : ∀ (rrs : List Rr) (s : TtlScan),
    (rrs.foldl add s).minTtl
      = (s.minTtl.toList ++ (rrs.filter (fun rr => rr.rtype ≠ OPT_TYPE)).map Rr.ttl).min? := by
  intro rrs
  induction rrs with
  | nil =>
    intro s
    cases hmin : s.minTtl with
    | none => simp [hmin]
    | some t => simp [hmin]
  | cons rr rrs ih =>
    intro s
    rw [List.foldl_cons, ih, add]
    by_cases hopt : rr.rtype = OPT_TYPE
    · simp [hopt]
    · cases hmin : s.minTtl with
      | none => simp [hopt]
      | some t => simp [hopt, List.min?]

/-- The records a scan keeps. -/
def kept (records : List OwnedRr) : List OwnedRr :=
  records.filter (fun record => record.rr.rtype ≠ OPT_TYPE)

/-- What a scan keeps of the records of a layout. -/
theorem TtlScan.scan_layout {m : Bytes} {s : TtlScan} {header : Header} {questions : List NameAt}
    {records : List OwnedRr} (hs : scan m = .ok s) (h : Layout m header questions records) :
    s.ttlOffsets = (kept records).map (·.rr.ttlOffset) ∧
      s.minTtl = ((kept records).map (·.rr.ttl)).min? := by
  have hs' : scan m = .ok ((records.map OwnedRr.rr).foldl add ⟨none, []⟩) :=
    scan_ok_iff_layout.mpr ⟨header, questions, records, h, rfl⟩
  rw [hs, Except.ok.injEq] at hs'
  rw [hs', foldl_add_ttlOffsets, foldl_add_minTtl, List.filter_map, List.map_map, List.map_map]
  exact ⟨rfl, rfl⟩

/-- Every record of a layout stands behind the header, inside the message. -/
theorem Layout.recordAt_of_mem {m : Bytes} {header : Header} {questions : List NameAt}
    {records : List OwnedRr} (h : Layout m header questions records) {record : OwnedRr}
    (hmem : record ∈ records) : ∃ p q, RecordAt m p record q ∧ 12 ≤ p ∧ q ≤ m.length := by
  obtain ⟨mid, stop, hqrow, hrow⟩ := h.rows
  have hmid : 12 ≤ mid := hqrow.pos_le QuestionAt.forward
  obtain ⟨p, q, hat, hp, -⟩ := hrow.exists_of_mem RecordAt.forward hmem
  exact ⟨p, q, hat, Nat.le_trans hmid hp, hat.le.2.2⟩

end Codec

namespace Resolver

/-! ### What a patch writes -/

/-- `u32::saturating_sub`. -/
def saturatingSub (a b : UInt32) : UInt32 := if b ≤ a then a - b else 0

namespace CachedResponse

theorem decrementTtl_eq {secs : UInt32} {buf : Bytes} {o : Nat} (h : o + 4 ≤ buf.length) :
    decrementTtl secs buf o
      = buf.take o ++ (be32 (saturatingSub (u32At buf o) secs) ++ buf.drop (o + 4)) := by
  obtain ⟨a, b, c, d, hdrop, hword⟩ := drop_eq_u32At h
  rw [decrementTtl, hdrop, hword]
  rfl

/-- One round writes one word, and leaves every other byte alone. -/
theorem decrementTtl_frame (secs : UInt32) {buf : Bytes} {o : Nat} (h : o + 4 ≤ buf.length) :
    (decrementTtl secs buf o).length = buf.length ∧
      u32At (decrementTtl secs buf o) o = saturatingSub (u32At buf o) secs ∧
      ∀ i, i < o ∨ o + 4 ≤ i → (decrementTtl secs buf o)[i]? = buf[i]? := by
  have htake : (buf.take o).length = o := List.length_take_of_le (by omega)
  rw [decrementTtl_eq h]
  refine ⟨?_, ?_, ?_⟩
  · simp only [List.length_append, htake, be32_length, List.length_drop]
    omega
  · refine u32At_of_bytes ⟨buf.drop (o + 4), ?_⟩
    rw [List.drop_left' htake]
  · intro i hi
    rcases hi with hi | hi
    · rw [List.getElem?_append_left (by omega), List.getElem?_take_of_lt hi]
    · rw [List.getElem?_append_right (by omega), List.getElem?_append_right (by simp; omega),
        List.getElem?_drop, htake, be32_length]
      congr 1
      omega

/-- The TTL loop over offsets that are apart: one word at each of them, and no
other byte. -/
theorem foldl_decrementTtl (secs : UInt32) : ∀ {offsets : List Nat} {buf : Bytes},
    offsets.Pairwise (fun o o' => o + 4 ≤ o') → (∀ o ∈ offsets, o + 4 ≤ buf.length) →
    (offsets.foldl (decrementTtl secs) buf).length = buf.length ∧
      (∀ o ∈ offsets, u32At (offsets.foldl (decrementTtl secs) buf) o
        = saturatingSub (u32At buf o) secs) ∧
      ∀ i, (∀ o ∈ offsets, i < o ∨ o + 4 ≤ i) →
        (offsets.foldl (decrementTtl secs) buf)[i]? = buf[i]? := by
  intro offsets
  induction offsets with
  | nil =>
    intro buf _ _
    exact ⟨rfl, by simp, fun _ _ => rfl⟩
  | cons o offsets ih =>
    intro buf hpair hlen
    obtain ⟨hapart, hpair⟩ := List.pairwise_cons.mp hpair
    obtain ⟨hlen₁, hword, hframe⟩ := decrementTtl_frame secs (hlen o List.mem_cons_self)
    have hlater : ∀ o' ∈ offsets, o' + 4 ≤ (decrementTtl secs buf o).length :=
      fun o' ho' => hlen₁ ▸ hlen o' (List.mem_cons_of_mem _ ho')
    obtain ⟨hlen₂, hwords, hframes⟩ := ih hpair hlater
    rw [List.foldl_cons]
    refine ⟨hlen₂.trans hlen₁, ?_, ?_⟩
    · intro o' ho'
      rcases List.mem_cons.mp ho' with rfl | ho'
      · -- The later rounds do not come back to the first word.
        rw [← hword]
        refine u32At_congr (fun k hk => hframes _ (fun o'' ho'' => .inl ?_))
        have := hapart o'' ho''
        omega
      · have hsame : u32At (decrementTtl secs buf o) o' = u32At buf o' := by
          refine u32At_congr (fun k _ => hframe _ (.inr ?_))
          have := hapart o' ho'
          omega
        rw [hwords o' ho', hsame]
    · intro i hi
      rw [hframes i (fun o' ho' => hi o' (List.mem_cons_of_mem _ ho'))]
      exact hframe i (hi o List.mem_cons_self)

/-- The frame of a patch: the same length, the client's id, the TTLs less the
elapsed time, and every other byte as it was. -/
structure Patched (m : Bytes) (offsets : List Nat) (id : UInt16) (secs : UInt32) (m' : Bytes) :
    Prop where
  length_eq : m'.length = m.length
  id_eq : m'.take 2 = be16 id
  ttl_eq : ∀ o ∈ offsets, u32At m' o = saturatingSub (u32At m o) secs
  frame : ∀ i, 2 ≤ i → (∀ o ∈ offsets, i < o ∨ o + 4 ≤ i) → m'[i]? = m[i]?

/-- Over offsets behind the header that are apart, the patch has that frame. -/
theorem patchedFor_patched (r : CachedResponse) (id : UInt16) (secs : UInt32)
    (hlen : 2 ≤ r.bytes.length) (hpair : r.ttlOffsets.Pairwise (fun o o' => o + 4 ≤ o'))
    (hin : ∀ o ∈ r.ttlOffsets, 2 ≤ o ∧ o + 4 ≤ r.bytes.length) :
    Patched r.bytes r.ttlOffsets id secs (r.patchedFor id secs) := by
  have hbuf : (be16 id ++ r.bytes.drop 2).length = r.bytes.length := by
    simp only [List.length_append, be16_length, List.length_drop]
    omega
  -- The id goes in first; behind it nothing has moved.
  have hget : ∀ i, 2 ≤ i → (be16 id ++ r.bytes.drop 2)[i]? = r.bytes[i]? := by
    intro i hi
    rw [List.getElem?_append_right (by simpa using hi), List.getElem?_drop, be16_length]
    congr 1
    omega
  obtain ⟨hlen', hwords, hframe⟩ := foldl_decrementTtl secs hpair
    (fun o ho => hbuf ▸ (hin o ho).2)
  rw [patchedFor, if_pos hlen]
  refine ⟨hlen'.trans hbuf, ?_, ?_, ?_⟩
  · rw [take_foldl_decrementTtl (fun o ho => (hin o ho).1)]
    exact List.take_left' (be16_length id)
  · intro o ho
    have hsame : u32At (be16 id ++ r.bytes.drop 2) o = u32At r.bytes o := by
      refine u32At_congr (fun k _ => hget _ ?_)
      have := hin o ho
      omega
    rw [hwords o ho, hsame]
  · intro i hi hout
    rw [hframe i hout, hget i hi]

end CachedResponse

/-- The offsets of a scan stand behind the header, inside the message and apart. -/
theorem scan_offsets {m : Bytes} {s : TtlScan} (hs : TtlScan.scan m = .ok s) :
    s.ttlOffsets.Pairwise (fun o o' => o + 11 ≤ o') ∧
      ∀ o ∈ s.ttlOffsets, 12 ≤ o ∧ o + 4 ≤ m.length := by
  obtain ⟨header, questions, records, hlayout, -⟩ := TtlScan.scan_ok_iff_layout.mp hs
  obtain ⟨hoffsets, -⟩ := TtlScan.scan_layout hs hlayout
  obtain ⟨mid, stop, -, hrow⟩ := hlayout.rows
  rw [hoffsets]
  constructor
  · exact (pairwise_ttlOffset hrow).sublist (List.filter_sublist.map _)
  · intro o ho
    obtain ⟨record, hmem, rfl⟩ := List.mem_map.mp ho
    obtain ⟨p, q, hat, hp, hq⟩ := hlayout.recordAt_of_mem (List.mem_of_mem_filter hmem)
    have := hat.le
    omega

/-- A patch of what was scanned has the frame of a patch. -/
theorem patched_of_scan {r : CachedResponse} {s : TtlScan} (hs : TtlScan.scan r.bytes = .ok s)
    (hoff : r.ttlOffsets = s.ttlOffsets) (id : UInt16) (secs : UInt32) :
    CachedResponse.Patched r.bytes s.ttlOffsets id secs (r.patchedFor id secs) := by
  obtain ⟨hpair, hin⟩ := scan_offsets hs
  obtain ⟨header, _, _, hlayout, -⟩ := TtlScan.scan_ok_iff_layout.mp hs
  have hlen := hlayout.header_bytes.length_le
  rw [Header.bytes_length] at hlen
  rw [← hoff] at hpair hin ⊢
  refine r.patchedFor_patched id secs (by omega) (hpair.imp (fun h => by omega)) ?_
  intro o ho
  have := hin o ho
  omega

/-- **The frame of scan and patch.**  The offsets of a scan are at least 11 bytes
apart, behind the header and inside the message; they are those of the non-OPT
records in order, whatever layout the message is given; the least TTL is that of
the words there.  A patch writes the client's id, takes the elapsed time off each
of those words, and changes nothing else. -/
theorem scan_and_patch_frame (m : Bytes) (s : TtlScan) (hs : TtlScan.scan m = .ok s) :
    s.ttlOffsets.Pairwise (fun o o' => o + 11 ≤ o') ∧
    (∀ o ∈ s.ttlOffsets, 12 ≤ o ∧ o + 4 ≤ m.length) ∧
    (∃ header questions records, Layout m header questions records) ∧
    (∀ header questions records, Layout m header questions records →
      s.ttlOffsets = (records.filter (fun record => record.rr.rtype ≠ 41)).map
        (fun record => record.rr.ttlOffset)) ∧
    (s.minTtl = none ↔ s.ttlOffsets = []) ∧
    (∀ t, s.minTtl = some t → (∃ o ∈ s.ttlOffsets, u32At m o = t) ∧
      ∀ o ∈ s.ttlOffsets, t ≤ u32At m o) ∧
    (∀ storedAt expiry id secs,
      let m' := (CachedResponse.mk m s.ttlOffsets storedAt expiry).patchedFor id secs
      m'.length = m.length ∧ m'.take 2 = be16 id ∧
      (∀ o ∈ s.ttlOffsets, u32At m' o = saturatingSub (u32At m o) secs) ∧
      ∀ i, 2 ≤ i → (∀ o ∈ s.ttlOffsets, i < o ∨ o + 4 ≤ i) → m'[i]? = m[i]?) := by
  obtain ⟨hpair, hin⟩ := scan_offsets hs
  obtain ⟨header, questions, records, hlayout, -⟩ := TtlScan.scan_ok_iff_layout.mp hs
  obtain ⟨hoffsets, hmin⟩ := TtlScan.scan_layout hs hlayout
  -- The TTLs of the records are the words at their offsets.
  have hmin : s.minTtl = (s.ttlOffsets.map (u32At m)).min? := by
    rw [hmin, hoffsets, List.map_map]
    congr 1
    refine List.map_congr_left (fun record hmem => ?_)
    obtain ⟨p, q, hat, -⟩ := hlayout.recordAt_of_mem (List.mem_of_mem_filter hmem)
    exact (u32At_of_bytes hat.ttl_bytes).symm
  refine ⟨hpair, hin, ⟨header, questions, records, hlayout⟩, ?_, ?_, ?_, ?_⟩
  · intro header questions records h
    exact (TtlScan.scan_layout hs h).1
  · rw [hmin, List.min?_eq_none_iff, List.map_eq_nil_iff]
  · intro t ht
    rw [hmin, List.min?_eq_some_iff] at ht
    refine ⟨List.mem_map.mp ht.1, ?_⟩
    intro o ho
    exact ht.2 _ (List.mem_map_of_mem ho)
  · intro storedAt expiry id secs
    have hpatched := patched_of_scan (r := ⟨m, s.ttlOffsets, storedAt, expiry⟩) hs rfl id secs
    exact ⟨hpatched.length_eq, hpatched.id_eq, hpatched.ttl_eq, hpatched.frame⟩

/-- The address 10.0.0.1 of `a.`, with a TTL of 120 seconds. -/
def addressMessage : Bytes :=
  [0xFF, 0xFF, 0x81, 0x80, 0, 1, 0, 1, 0, 0, 0, 0] ++ [1, 97, 0, 0, 1, 0, 1] ++
    [0xC0, 0x0C, 0, 1, 0, 1, 0, 0, 0, 120, 0, 4, 10, 0, 0, 1]

theorem scan_and_patch_frame_sample :
    TtlScan.scan addressMessage = .ok ⟨some 120, [25]⟩ ∧
    u32At ((CachedResponse.mk addressMessage [25] 0 0).patchedFor 0x4242 20) 25 = 100 := by
  have hs : TtlScan.scan addressMessage = .ok ⟨some 120, [25]⟩ := by decide
  obtain ⟨-, -, -, -, -, -, hpatch⟩ := scan_and_patch_frame addressMessage ⟨some 120, [25]⟩ hs
  obtain ⟨-, -, httl, -⟩ := hpatch 0 0 0x4242 20
  exact ⟨hs, (httl 25 List.mem_cons_self).trans (by decide)⟩

end Resolver

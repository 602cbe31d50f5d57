/-
What the name walk of `Name::skip_rr` accepts, over arbitrary bytes.

`Derives buf pos ls hops stop` is the grammar of a possibly compressed name: the
bytes from `pos` spell the labels `ls`, following `hops` pointers, each to a
place before itself, down to a zero byte.  A pointer only has to point before
itself, so a name may run through the same label again and again; what ends the
walk are the two caps.  `stop` is where a reader that walks along is left: right
after the first pointer, or after the zero byte if there is none.

* `skipRound_zero`, `skipRound_pointer`, `skipRound_label` — what one round of the
  loop does at each production;
* `derives_of_skipLoop`, `skipLoop_of_derives` — the loop succeeds exactly on the
  derivations within the caps, by induction on the fuel one way and on the
  derivation the other;
* `skipRr_exact` — the walk as a whole: it ends, what it accepts, and where it
  leaves the reader;
* `skipRr_wire`, `skipRr_pointer` — the two ways a synthesized record names its
  owner: inline, or by a pointer to an earlier wire form.
-/
import Sagittarius.NameSkip

open BigEndian Delimited

namespace Codec

namespace Name

/-! ### The grammar of a compressed name -/

/-- A label at `pos`: its length byte and its bytes, inside the buffer. -/
structure LabelAt (buf : Bytes) (pos : Nat) (l : Bytes) : Prop where
  one_le : 1 ≤ l.length
  length_le : l.length ≤ MAX_LABEL_LEN
  bytes : lenByte l.length :: l <+: buf.drop pos

/-- A compression pointer at `pos`: two high bits set, then 14 bits of offset. -/
def PointerAt (buf : Bytes) (pos target : Nat) : Prop :=
  ∃ hi lo : UInt8, buf[pos]? = some hi ∧ buf[pos + 1]? = some lo ∧ hi &&& 0xC0 = 0xC0 ∧
    target = (ofBe16 (hi &&& 0x3F) lo).toNat

/-- The bytes from `pos` derive the labels `ls` over `hops` pointers. -/
inductive Derives (buf : Bytes) : Nat → List Bytes → Nat → Nat → Prop
  | zero {pos : Nat} (hzero : buf[pos]? = some 0) : Derives buf pos [] 0 (pos + 1)
  | label {pos : Nat} {l : Bytes} {ls : List Bytes} {hops stop : Nat} (hl : LabelAt buf pos l)
      (rest : Derives buf (pos + (1 + l.length)) ls hops stop) : Derives buf pos (l :: ls) hops stop
  | pointer {pos target : Nat} {ls : List Bytes} {hops stop : Nat}
      (hptr : PointerAt buf pos target) (hback : target < pos)
      (rest : Derives buf target ls hops stop) : Derives buf pos ls (hops + 1) (pos + 2)

theorem LabelAt.getElem? {buf l : Bytes} {pos : Nat} (h : LabelAt buf pos l) :
    buf[pos]? = some (lenByte l.length) := getElem?_of_prefix_drop h.bytes

theorem LabelAt.lt_length {buf l : Bytes} {pos : Nat} (h : LabelAt buf pos l) :
    pos + (1 + l.length) ≤ buf.length := by
  have := h.bytes.length_le
  simp only [List.length_cons, List.length_drop] at this
  omega

/-- A name takes at least one byte. -/
theorem Derives.pos_lt {buf : Bytes} {pos hops stop : Nat} {ls : List Bytes}
    (h : Derives buf pos ls hops stop) : pos < stop := by
  induction h with
  | zero => exact Nat.lt_succ_self _
  | label _ _ ih => omega
  | pointer => omega

theorem toNat_eq_zero (b : UInt8) : b.toNat = 0 → b = 0 := forall_byte (by decide) b

/-! ### One round -/

section Round

variable {next : Nat → Bool → Nat → Nat → ReadM Unit} {curPos hops total : Nat} {fixed : Bool}
  {r r' : Reader}

theorem fixReader_ok {n : Nat} (hpos : fixed = false → r.pos = curPos)
    (hn : curPos + n ≤ r.buf.length) : fixReader fixed (curPos + n) r = .ok () (after fixed r n) := by
  cases fixed with
  | true => rfl
  | false =>
    have hp := hpos rfl
    subst hp
    rw [fixReader_eq]
    exact syncReader_ok (fun _ => hn)

/-- At a zero byte the round ends the walk. -/
theorem skipRound_zero (hpos : fixed = false → r.pos = curPos) (hzero : r.buf[curPos]? = some 0) :
    skipRound r.buf next curPos fixed hops total r = .ok () (after fixed r 1) := by
  have hlt := (List.getElem?_eq_some_iff.mp hzero).1
  rw [skipRound, hzero]
  exact fixReader_ok hpos hlt

/-- At a pointer the round fixes the reader and goes on at the target. -/
theorem skipRound_pointer {target : Nat} (hpos : fixed = false → r.pos = curPos)
    (hptr : PointerAt r.buf curPos target) :
    skipRound r.buf next curPos fixed hops total r = .ok () r' ↔
      target < curPos ∧ hops + 1 ≤ MAX_SKIP_HOPS ∧
        next target true (hops + 1) total (after fixed r 2) = .ok () r' := by
  obtain ⟨hi, lo, hhi, hlo, htag, rfl⟩ := hptr
  have hlt := (List.getElem?_eq_some_iff.mp hlo).1
  rw [skipRound, hhi]
  simp only [hlo]
  rw [if_pos htag, bind_of_ok (fixReader_ok (n := 2) hpos (by omega))]
  constructor
  · intro h
    split_ifs at h with hend hback hcap
    · exact absurd h (by simp)
    · exact absurd h (by simp)
    · exact absurd h (by simp)
    · exact ⟨by omega, by omega, h⟩
  · rintro ⟨hback, hcap, h⟩
    rw [if_neg (by omega), if_neg (by omega), if_neg (by omega)]
    exact h

/-- At a label the round counts its bytes and goes on behind it. -/
theorem skipRound_label {l : Bytes} (hpos : fixed = false → r.pos = curPos)
    (hl : LabelAt r.buf curPos l) :
    skipRound r.buf next curPos fixed hops total r = .ok () r' ↔
      total + l.length ≤ MAX_NAME_WIRE_LEN ∧
        next (curPos + (1 + l.length)) fixed hops (total + l.length) (after fixed r (1 + l.length))
          = .ok () r' := by
  have hlen := hl.lt_length
  have hle := hl.length_le
  have hone := hl.one_le
  have hnat : (lenByte l.length).toNat = l.length := lenByte_toNat hle
  have hsmall : (lenByte l.length).toNat ≤ 63 := by
    rw [hnat]
    exact hle
  rw [skipRound, hl.getElem?]
  simp only [hnat]
  rw [if_neg (not_pointer_of_le _ hsmall), if_neg (not_reserved_of_le _ hsmall),
    if_neg (by omega), if_neg (by omega)]
  split_ifs with htotal hend
  · simp only [throw_ok_iff, false_iff, not_and]
    omega
  · omega
  · rw [bind_of_ok (syncReader_ok (fun hf => by have := hpos hf; omega)), Nat.add_assoc curPos]
    exact ⟨fun h => ⟨by omega, h⟩, fun h => h.2⟩

/-- A round that succeeds stands at a zero byte, a pointer or a label. -/
theorem skipRound_at (h : skipRound r.buf next curPos fixed hops total r = .ok () r') :
    r.buf[curPos]? = some 0 ∨ (∃ target, PointerAt r.buf curPos target) ∨
      ∃ l, LabelAt r.buf curPos l := by
  rw [skipRound] at h
  cases hbyte : r.buf[curPos]? with
  | none => simp [hbyte] at h
  | some b =>
    simp only [hbyte] at h
    -- The two top bits are asked first, then the reserved forms and the lengths.
    by_cases htag : b &&& 0xC0 = 0xC0
    · rw [if_pos htag] at h
      cases hlo : r.buf[curPos + 1]? with
      | none => simp [hlo] at h
      | some lo => exact .inr (.inl ⟨_, b, lo, hbyte, hlo, htag, rfl⟩)
    rw [if_neg htag] at h
    split_ifs at h with hres hzero hlong htotal hend
    · exact absurd h (by simp)
    · exact .inl (by rw [toNat_eq_zero b hzero])
    · exact absurd h (by simp)
    · exact absurd h (by simp)
    · exact absurd h (by simp)
    · -- The label is the bytes behind its length byte.
      refine .inr (.inr ⟨(r.buf.drop (curPos + 1)).take b.toNat, ?_⟩)
      have hlen : ((r.buf.drop (curPos + 1)).take b.toNat).length = b.toNat := by
        rw [List.length_take, List.length_drop]
        omega
      refine ⟨by omega, by omega, ?_⟩
      obtain ⟨hlt, hget⟩ := List.getElem?_eq_some_iff.mp hbyte
      rw [hlen, lenByte_of_toNat, List.drop_eq_getElem_cons hlt, hget]
      exact List.cons_prefix_cons.mpr ⟨rfl, List.take_prefix _ _⟩

end Round

/-! ### The whole walk -/

/-- Where the walk leaves the reader: a fixed one stays, another ends at `stop`. -/
def stopped (fixed : Bool) (r : Reader) (stop : Nat) : Reader := if fixed then r else ⟨r.buf, stop⟩

/-- A reader that follows the loop is moved with it. -/
theorem stopped_after {fixed : Bool} {r : Reader} {n stop : Nat} :
    stopped fixed (after fixed r n) stop = stopped fixed r stop := by
  cases fixed <;> rfl

theorem after_eq_stopped {fixed : Bool} {r : Reader} {curPos n : Nat}
    (hpos : fixed = false → r.pos = curPos) : after fixed r n = stopped fixed r (curPos + n) := by
  cases fixed with
  | true => rfl
  | false => rw [← hpos rfl]; rfl

theorem after_pos {fixed : Bool} {r : Reader} {curPos n : Nat}
    (hpos : fixed = false → r.pos = curPos) :
    fixed = false → (after fixed r n).pos = curPos + n := by
  rintro rfl
  rw [← hpos rfl]
  rfl

theorem labelBytes_cons (l : Bytes) (ls : List Bytes) :
    labelBytes (l :: ls) = l.length + labelBytes ls := rfl

/-- A loop that succeeds has walked a derivation within the caps. -/
theorem derives_of_skipLoop {buf : Bytes} : ∀ {fuel curPos hops total : Nat} {fixed : Bool}
    {r r' : Reader}, r.buf = buf → (fixed = false → r.pos = curPos) → hops ≤ MAX_SKIP_HOPS →
    total ≤ MAX_NAME_WIRE_LEN → skipLoop buf fuel curPos fixed hops total r = .ok () r' →
    ∃ ls k stop, Derives buf curPos ls k stop ∧ hops + k ≤ MAX_SKIP_HOPS ∧
      total + labelBytes ls ≤ MAX_NAME_WIRE_LEN ∧ r' = stopped fixed r stop := by
  intro fuel
  induction fuel with
  | zero =>
    intro curPos hops total fixed r r' _ _ _ _ h
    exact absurd h (by simp [skipLoop])
  | succ fuel ih =>
    rintro curPos hops total fixed r r' rfl hpos hhops htotal h
    rw [skipLoop_succ] at h
    -- One round: the name ends, jumps backwards, or has one more label.
    obtain hzero | ⟨target, hptr⟩ | ⟨l, hl⟩ := skipRound_at h
    · rw [skipRound_zero hpos hzero] at h
      simp only [EStateM.Result.ok.injEq, true_and] at h
      exact ⟨[], 0, _, .zero hzero, hhops, htotal, h ▸ after_eq_stopped hpos⟩
    · obtain ⟨hback, hcap, hrest⟩ := (skipRound_pointer hpos hptr).mp h
      obtain ⟨ls, k, stop, hd, hk, hbytes, rfl⟩ :=
        ih (after_buf _ _ _) (fun hf => absurd hf (by simp)) hcap htotal hrest
      exact ⟨ls, k + 1, _, .pointer hptr hback hd, by omega, hbytes, after_eq_stopped hpos⟩
    · obtain ⟨hcap, hrest⟩ := (skipRound_label hpos hl).mp h
      obtain ⟨ls, k, stop, hd, hk, hbytes, rfl⟩ :=
        ih (after_buf _ _ _) (after_pos hpos) hhops hcap hrest
      refine ⟨l :: ls, k, stop, .label hl hd, hk, ?_, stopped_after⟩
      rw [labelBytes_cons]
      omega

/-- Every derivation within the caps is walked. -/
theorem skipLoop_of_derives {buf : Bytes} {curPos k stop : Nat} {ls : List Bytes}
    (hd : Derives buf curPos ls k stop) : ∀ {fuel hops total : Nat} {fixed : Bool}
    {r : Reader}, r.buf = buf → (fixed = false → r.pos = curPos) → hops + k ≤ MAX_SKIP_HOPS →
    total + labelBytes ls ≤ MAX_NAME_WIRE_LEN → skipsLeft hops total < fuel →
    skipLoop buf fuel curPos fixed hops total r = .ok () (stopped fixed r stop) := by
  induction hd with
  | zero hzero =>
    rintro fuel hops total fixed r rfl hpos hhops htotal hfuel
    obtain ⟨fuel, rfl⟩ : ∃ n, fuel = n + 1 := ⟨fuel - 1, by omega⟩
    rw [skipLoop_succ, skipRound_zero hpos hzero, after_eq_stopped hpos]
  | @label pos l ls k stop hl _ ih =>
    rintro fuel hops total fixed r rfl hpos hhops htotal hfuel
    obtain ⟨fuel, rfl⟩ : ∃ n, fuel = n + 1 := ⟨fuel - 1, by omega⟩
    have hone := hl.one_le
    rw [labelBytes_cons] at htotal
    rw [skipsLeft] at hfuel
    rw [skipLoop_succ, skipRound_label hpos hl]
    refine ⟨by omega, ?_⟩
    rw [ih (after_buf _ _ _) (after_pos hpos) hhops (by omega) (by rw [skipsLeft]; omega),
      stopped_after]
  | pointer hptr hback _ ih =>
    rintro fuel hops total fixed r rfl hpos hhops htotal hfuel
    obtain ⟨fuel, rfl⟩ : ∃ n, fuel = n + 1 := ⟨fuel - 1, by omega⟩
    rw [skipsLeft] at hfuel
    rw [skipLoop_succ, skipRound_pointer hpos hptr]
    refine ⟨hback, by omega, ?_⟩
    rw [ih (after_buf _ _ _) (fun hf => absurd hf (by simp)) (by omega) htotal
      (by rw [skipsLeft]; omega), after_eq_stopped hpos]
    rfl

/-- A name within the caps of the walk: at most 16 hops and 255 label bytes. -/
def Skips (buf : Bytes) (pos : Nat) (ls : List Bytes) (stop : Nat) : Prop :=
  ∃ hops, Derives buf pos ls hops stop ∧ hops ≤ MAX_SKIP_HOPS ∧ labelBytes ls ≤ MAX_NAME_WIRE_LEN

theorem Skips.pos_lt {buf : Bytes} {pos stop : Nat} {ls : List Bytes}
    (h : Skips buf pos ls stop) : pos < stop := by
  obtain ⟨hops, hd, -⟩ := h
  exact hd.pos_lt

/-- What `Name::skip_rr` accepts. -/
theorem skipRr_ok_iff {r r' : Reader} :
    skipRr r = .ok () r' ↔ ∃ ls stop, Skips r.buf r.pos ls stop ∧ r' = ⟨r.buf, stop⟩ := by
  show skipLoop r.buf skipFuel r.pos false 0 0 r = .ok () r' ↔ _
  constructor
  · intro h
    obtain ⟨ls, k, stop, hd, hk, hbytes, rfl⟩ :=
      derives_of_skipLoop rfl (fun _ => rfl) (Nat.zero_le _) (Nat.zero_le _) h
    exact ⟨ls, stop, ⟨k, hd, by omega, by omega⟩, rfl⟩
  · rintro ⟨ls, stop, ⟨k, hd, hk, hbytes⟩, rfl⟩
    exact skipLoop_of_derives hd rfl (fun _ => rfl) (by omega) (by omega)
      (by rw [skipsLeft, skipFuel]; omega)

/-- **The name walk**: it ends within its 272 rounds whatever the bytes are (`next`
is never called), it succeeds exactly on a derivation within the caps, leaving the
reader behind the first pointer or behind the zero byte, and succeeding or not it
leaves the reader inside the buffer. -/
theorem skipRr_exact (r : Reader) (hr : r.pos ≤ r.buf.length) :
    (∀ next, skipRr r = (skipRound r.buf)^[MAX_SKIP_HOPS + MAX_NAME_WIRE_LEN + 1] next
      r.pos false 0 0 r) ∧
    (∀ r', skipRr r = .ok () r' ↔ ∃ ls hops, Derives r.buf r.pos ls hops r'.pos ∧
      hops ≤ 16 ∧ labelBytes ls ≤ 255 ∧ r'.buf = r.buf) ∧
    (leaves skipRr r).buf = r.buf ∧ (leaves skipRr r).pos ≤ r.buf.length := by
  refine ⟨?_, ?_, (skipRr_stays r).1, (skipRr_stays r).2.2 hr⟩
  · intro next
    rw [skipLoop_fuel r.buf next (by rw [skipsLeft]; omega)]
    rfl
  · intro r'
    rw [skipRr_ok_iff]
    constructor
    · rintro ⟨ls, stop, ⟨hops, hd, hhops, hbytes⟩, rfl⟩
      exact ⟨ls, hops, hd, hhops, hbytes, rfl⟩
    · rintro ⟨ls, hops, hd, hhops, hbytes, hbuf⟩
      exact ⟨ls, r'.pos, ⟨hops, hd, hhops, hbytes⟩, by rw [← hbuf]⟩

/-- The name `a` behind a pointer: the reader is left behind the pointer. -/
theorem skipRr_exact_behind_pointer :
    skipRr ⟨[1, 0x61, 0, 0xC0, 0], 3⟩ = .ok () ⟨[1, 0x61, 0, 0xC0, 0], 5⟩ := by
  have hlabel : LabelAt [1, 0x61, 0, 0xC0, 0] 0 [0x61] := ⟨by decide, by decide, by decide⟩
  have hptr : PointerAt [1, 0x61, 0, 0xC0, 0] 3 0 := ⟨0xC0, 0, rfl, rfl, by decide, rfl⟩
  refine ((skipRr_exact _ (by decide)).2.1 _).mpr ⟨[[0x61]], 1, ?_, by decide, by decide, rfl⟩
  exact .pointer hptr (by decide) (.label hlabel (.zero rfl))

/-! ### Names as they are written -/

/-- A pointer-free wire form derives its labels. -/
theorem derives_wire {buf : Bytes} : ∀ {ls : List Bytes} {pos : Nat}, (∀ l ∈ ls, RawLabel l) →
    wire ls <+: buf.drop pos → Derives buf pos ls 0 (pos + wireLen ls) := by
  intro ls
  induction ls with
  | nil =>
    intro pos _ hpre
    exact .zero (getElem?_of_prefix_drop hpre)
  | cons l ls ih =>
    intro pos hraw hpre
    have hl : RawLabel l := hraw l (by simp)
    have hat : LabelAt buf pos l := by
      refine ⟨List.length_pos_iff.mpr hl.ne_nil, hl.length_le, ?_⟩
      rw [wire_cons, ← List.cons_append] at hpre
      exact (List.prefix_append _ _).trans hpre
    obtain ⟨_, _, hrest⟩ := (wire_cons_prefix_iff rfl).mp hpre
    rw [List.drop_drop] at hrest
    have hstop : pos + wireLen (l :: ls) = pos + (1 + l.length) + wireLen ls := by
      simp only [wireLen, prefixedLength_cons]
      omega
    rw [hstop]
    exact .label hat (ih (fun l' hl' => hraw l' (by simp [hl'])) hrest)

/-- The labels of a name that fits are within the cap on label bytes. -/
theorem labelBytes_le {ls : List Bytes} (hls : RawLabels ls) :
    labelBytes ls ≤ MAX_NAME_WIRE_LEN := by
  have hsum := labelBytes_add_length ls
  have hle := hls.wireLen_le
  rw [wireLen] at hle
  omega

/-- **Inline owner**: a wire form at the cursor is skipped whole. -/
theorem skipRr_wire {ls : List Bytes} {r : Reader} (hls : RawLabels ls)
    (hpre : wire ls <+: r.buf.drop r.pos) : skipRr r = .ok () (r.advance (wireLen ls)) :=
  skipRr_ok_iff.mpr ⟨ls, _, ⟨0, derives_wire hls.raw hpre, Nat.zero_le _,
    labelBytes_le hls⟩, rfl⟩

/-- The two bytes of a compression pointer to offset `target`. -/
def pointerBytes (target : UInt8) : Bytes := [0xC0, target]

theorem pointerAt_of_bytes {buf : Bytes} {pos : Nat} {target : UInt8}
    (hptr : pointerBytes target <+: buf.drop pos) : PointerAt buf pos target.toNat := by
  have hlow : buf[pos + 1]? = some target := by
    obtain ⟨t, ht⟩ := hptr
    rw [← List.getElem?_drop, ← ht]
    rfl
  have htarget : (ofBe16 (0xC0 &&& 0x3F) target).toNat = target.toNat := by
    simp [ofBe16]
  exact ⟨0xC0, target, getElem?_of_prefix_drop hptr, hlow, by decide, htarget.symm⟩

/-- **Pointer owner**: a pointer to an earlier wire form is skipped, and the
reader ends right after its two bytes. -/
theorem skipRr_pointer {ls : List Bytes} {r : Reader} (hls : RawLabels ls) (target : UInt8)
    (hpre : wire ls <+: r.buf.drop target.toNat) (hlt : target.toNat < r.pos)
    (hptr : pointerBytes target <+: r.buf.drop r.pos) :
    skipRr r = .ok () (r.advance 2) :=
  skipRr_ok_iff.mpr ⟨ls, _, ⟨1, .pointer (pointerAt_of_bytes hptr) hlt (derives_wire hls.raw hpre),
    by decide, labelBytes_le hls⟩, rfl⟩

end Name

end Codec

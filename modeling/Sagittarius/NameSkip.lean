/-
Skipping the name of a resource record (`Name::skip_rr`).

This is the only place of the codec that follows compression pointers.  The
loop carries its own position and the reader apart: until the first pointer the
reader follows the loop, after it the reader stays behind the two pointer bytes
(`fixedReader`).  Hops are capped at 16 and label bytes at 255, so the loop is
structural in a fuel argument that is never used up:

* `skipLoop_fuel` — unrolled once for each unit of fuel, the loop has ended;
* `skipRr_stays` — over arbitrary bytes, the reader never moves back or leaves its
  buffer.
-/
import Sagittarius.Name
import Mathlib.Logic.Function.Iterate

open BigEndian Delimited

namespace Codec

namespace Name

/-- Unless the reader is fixed, advance it to `curPos`. -/
def fixReader (fixedReader : Bool) (curPos : Nat) : ReadM Unit :=
  if fixedReader then pure ()
  else do
    let pos ← Reader.position
    let _ ← Reader.readSlice (curPos - pos)

/-- Unless the reader is fixed, keep it in sync by another `n` bytes. -/
def syncReader (fixedReader : Bool) (n : Nat) : ReadM Unit :=
  if fixedReader then pure ()
  else do
    let _ ← Reader.readSlice n

/-- The loop of `Name::skip_rr` over the message `msg`. -/
def skipLoop (msg : Bytes) : Nat → Nat → Bool → Nat → Nat → ReadM Unit
  | 0, _, _, _, _ => throw .nameSkipLimitExceeded
  | fuel + 1, curPos, fixedReader, hops, totalLabelBytes =>
    match msg[curPos]? with
    | none => throw (.unexpectedEof curPos 1 (msg.length - curPos))
    | some lenByte =>
      let curPos := curPos + 1
      if lenByte &&& 0xC0 = 0xC0 then
        match msg[curPos]? with
        | none => throw (.unexpectedEof curPos 1 (msg.length - curPos))
        | some lowByte => do
          let curPos := curPos + 1
          -- The first pointer settles where the caller's reader ends up.
          fixReader fixedReader curPos
          let target := ofBe16 (lenByte &&& 0x3F) lowByte
          if target.toNat ≥ msg.length then throw (.invalidPointerTarget target msg.length)
          else if target.toNat ≥ curPos - 2 then throw (.invalidPointerTarget target msg.length)
          else if hops + 1 > MAX_SKIP_HOPS then throw .nameSkipLimitExceeded
          else skipLoop msg fuel target.toNat true (hops + 1) totalLabelBytes
      else if lenByte &&& 0xC0 ≠ 0 then throw (.labelTooLong lenByte.toNat)
      else
        let labelLen := lenByte.toNat
        if labelLen = 0 then fixReader fixedReader curPos
        else if labelLen > MAX_LABEL_LEN then throw (.labelTooLong labelLen)
        else
          let totalLabelBytes := totalLabelBytes + labelLen
          if totalLabelBytes > MAX_NAME_WIRE_LEN then throw (.nameTooLong totalLabelBytes)
          else if curPos + labelLen > msg.length then
            throw (.unexpectedEof curPos labelLen (msg.length - curPos))
          else do
            syncReader fixedReader (1 + labelLen)
            skipLoop msg fuel (curPos + labelLen) fixedReader hops totalLabelBytes

/-- One round for each hop, one for each label byte, and one for the end. -/
def skipFuel : Nat := MAX_SKIP_HOPS + MAX_NAME_WIRE_LEN + 1

/-- `Name::skip_rr`. -/
def skipRr : ReadM Unit := do
  let pos ← Reader.position
  fun r => skipLoop r.buf skipFuel pos false 0 0 r

/-! ### The loop ends -/

/-- One round of the loop, with `next` in the place of the rounds after it. -/
def skipRound (msg : Bytes) (next : Nat → Bool → Nat → Nat → ReadM Unit) (curPos : Nat)
    (fixedReader : Bool) (hops totalLabelBytes : Nat) : ReadM Unit :=
  match msg[curPos]? with
  | none => throw (.unexpectedEof curPos 1 (msg.length - curPos))
  | some lenByte =>
    let curPos := curPos + 1
    if lenByte &&& 0xC0 = 0xC0 then
      match msg[curPos]? with
      | none => throw (.unexpectedEof curPos 1 (msg.length - curPos))
      | some lowByte => do
        let curPos := curPos + 1
        fixReader fixedReader curPos
        let target := ofBe16 (lenByte &&& 0x3F) lowByte
        if target.toNat ≥ msg.length then throw (.invalidPointerTarget target msg.length)
        else if target.toNat ≥ curPos - 2 then throw (.invalidPointerTarget target msg.length)
        else if hops + 1 > MAX_SKIP_HOPS then throw .nameSkipLimitExceeded
        else next target.toNat true (hops + 1) totalLabelBytes
    else if lenByte &&& 0xC0 ≠ 0 then throw (.labelTooLong lenByte.toNat)
    else
      let labelLen := lenByte.toNat
      if labelLen = 0 then fixReader fixedReader curPos
      else if labelLen > MAX_LABEL_LEN then throw (.labelTooLong labelLen)
      else
        let totalLabelBytes := totalLabelBytes + labelLen
        if totalLabelBytes > MAX_NAME_WIRE_LEN then throw (.nameTooLong totalLabelBytes)
        else if curPos + labelLen > msg.length then
          throw (.unexpectedEof curPos labelLen (msg.length - curPos))
        else do
          syncReader fixedReader (1 + labelLen)
          next (curPos + labelLen) fixedReader hops totalLabelBytes

theorem skipLoop_succ (msg : Bytes) (fuel : Nat) :
    skipLoop msg (fuel + 1) = skipRound msg (skipLoop msg fuel) := rfl

/-- What the two caps leave: the hops and the label bytes still to be taken. -/
def skipsLeft (hops total : Nat) : Nat := MAX_SKIP_HOPS - hops + (MAX_NAME_WIRE_LEN - total)

/-- A round calls the next one only with less left under the caps. -/
theorem skipRound_congr {msg : Bytes} {next next' : Nat → Bool → Nat → Nat → ReadM Unit}
    {curPos hops total : Nat} {fixed : Bool}
    (h : ∀ pos fixed' hops' total', skipsLeft hops' total' < skipsLeft hops total →
      next pos fixed' hops' total' = next' pos fixed' hops' total') :
    skipRound msg next curPos fixed hops total = skipRound msg next' curPos fixed hops total := by
  simp only [skipsLeft] at h
  rw [skipRound, skipRound]
  cases msg[curPos]? with
  | none => rfl
  | some lenByte =>
    -- A hop takes one from the first cap, a label its bytes from the second.
    have hop : ∀ target : Nat,
        (if hops + 1 > MAX_SKIP_HOPS then throw .nameSkipLimitExceeded
          else next target true (hops + 1) total : ReadM Unit)
        = if hops + 1 > MAX_SKIP_HOPS then throw .nameSkipLimitExceeded
          else next' target true (hops + 1) total := by
      intro target
      split_ifs with hcap
      · rfl
      · exact h _ _ _ _ (by omega)
    simp only [hop]
    congr 2
    split_ifs with hzero hlong htotal hend
    · rfl
    · rfl
    · rfl
    · rfl
    · rw [h _ _ _ _ (by omega)]

/-- The fuel is never used up: each round takes a hop or a label byte from its
cap, so whatever would run after that many rounds is not reached. -/
theorem skipLoop_fuel (msg : Bytes) (next : Nat → Bool → Nat → Nat → ReadM Unit) :
    ∀ {fuel curPos hops total : Nat} {fixed : Bool}, skipsLeft hops total < fuel →
    (skipRound msg)^[fuel] next curPos fixed hops total
      = skipLoop msg fuel curPos fixed hops total := by
  intro fuel
  induction fuel with
  | zero =>
    intro curPos hops total fixed hfuel
    omega
  | succ fuel ih =>
    intro curPos hops total fixed hfuel
    rw [Function.iterate_succ_apply', skipLoop_succ]
    exact skipRound_congr (fun _ _ _ _ hless => ih (by omega))

/-! ### The reader beside the loop -/

/-- Where the reader stands after the loop has passed `n` more bytes. -/
def after (fixed : Bool) (r : Reader) (n : Nat) : Reader := if fixed then r else r.advance n

@[simp] theorem after_buf (fixed : Bool) (r : Reader) (n : Nat) : (after fixed r n).buf = r.buf := by
  cases fixed <;> rfl

theorem syncReader_ok {fixed : Bool} {n : Nat} {r : Reader}
    (h : fixed = false → r.pos + n ≤ r.buf.length) :
    syncReader fixed n r = .ok () (after fixed r n) := by
  cases fixed with
  | true => rfl
  | false =>
    have hread : Reader.readSlice n r = .ok ((r.buf.drop r.pos).take n) (r.advance n) := by
      rw [Reader.readSlice, if_neg (Nat.not_lt.mpr (h rfl))]
    show (Reader.readSlice n >>= fun _ => pure ()) r = _
    rw [bind_of_ok hread]
    rfl

/-- Fixing the reader is syncing it by the distance to `curPos`. -/
theorem fixReader_eq {fixed : Bool} {n : Nat} {r : Reader} :
    fixReader fixed (r.pos + n) r = syncReader fixed n r := by
  cases fixed with
  | true => rfl
  | false =>
    show (Reader.position >>= fun pos => Reader.readSlice (r.pos + n - pos) >>= fun _ => pure ()) r
      = _
    rw [bind_of_ok (show Reader.position r = .ok r.pos r from rfl), Nat.add_sub_cancel_left]
    rfl

/-- The label bytes of a name, without its length bytes. -/
def labelBytes (ls : List Bytes) : Nat := (ls.map List.length).sum

theorem labelBytes_add_length (ls : List Bytes) :
    labelBytes ls + ls.length = prefixedLength ls := by
  induction ls with
  | nil => rfl
  | cons l ls ih =>
    simp only [labelBytes, List.map_cons, List.sum_cons, List.length_cons,
      prefixedLength_cons] at ih ⊢
    omega

/-- A length byte of a label has no reserved bits. -/
theorem not_reserved_of_le (b : UInt8) : b.toNat ≤ 63 → ¬ (b &&& 0xC0 ≠ 0) :=
  forall_byte (by decide) b

theorem getElem?_of_prefix_drop {b : UInt8} {t xs : Bytes} {k : Nat} (h : b :: t <+: xs.drop k) :
    xs[k]? = some b := by
  obtain ⟨u, hu⟩ := h
  rw [← Nat.add_zero k, ← List.getElem?_drop, ← hu]
  rfl

/-! ### Where the reader ends up -/

theorem syncReader_stays (fixed : Bool) (n : Nat) : Stays (syncReader fixed n) := by
  cases fixed with
  | true => exact .pure ()
  | false => exact .bind (.readSlice n) (fun _ => .pure ())

theorem fixReader_stays (fixed : Bool) (curPos : Nat) : Stays (fixReader fixed curPos) := by
  cases fixed with
  | true => exact .pure ()
  | false => exact .bind .position (fun _ => .bind (.readSlice _) (fun _ => .pure ()))

/-- The loop keeps the reader in its buffer, whatever it finds. -/
theorem skipLoop_stays (msg : Bytes) : ∀ (fuel curPos hops total : Nat) (fixed : Bool),
    Stays (skipLoop msg fuel curPos fixed hops total) := by
  intro fuel
  induction fuel with
  | zero => exact fun _ _ _ _ => .throw _
  | succ fuel ih =>
    intro curPos hops total fixed
    rw [skipLoop]
    cases msg[curPos]? with
    | none => exact .throw _
    | some lenByte =>
      refine .ite ?_ (.ite (.throw _) (.ite (fixReader_stays _ _) (.ite (.throw _) ?_)))
      · cases msg[curPos + 1]? with
        | none => exact .throw _
        | some lowByte =>
          refine .bind (fixReader_stays _ _) (fun _ => ?_)
          exact .ite (.throw _) (.ite (.throw _) (.ite (.throw _) (ih _ _ _ _)))
      · refine .ite (.throw _) (.ite (.throw _) ?_)
        exact .bind (syncReader_stays _ _) (fun _ => ih _ _ _ _)

theorem skipRr_stays : Stays skipRr :=
  fun r => skipLoop_stays r.buf skipFuel r.pos 0 0 false r

theorem skipRr_pos_le {r r' : Reader} (h : skipRr r = .ok () r') : r.pos ≤ r'.pos :=
  (skipRr_stays.of_ok h).2.1

end Name

end Codec

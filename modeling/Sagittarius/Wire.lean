/-
The byte cursor and the byte writer of the codec (`codec/mod.rs`,
`codec/reader.rs`, `codec/writer.rs`).

A `Reader` is a buffer and a position.  Its methods run in
`EStateM Error Reader`: a failed read returns its error *and* the reader as
the failure left it, the way `&mut self` does in the source.  Each read has one
lemma that says exactly when it succeeds, in terms of the bytes from the cursor
on (`buf.drop pos`); nothing later unfolds a read.

* `readU8_ok_iff`, `readU16_ok_iff`, `readU32_ok_iff`, `readSlice_ok_iff` — a
  read returns `v` exactly when the encoding of `v` stands at the cursor, and
  then advances past it;
* `Stays.bind`, `Stays.readSlice` — the cursor never leaves the buffer.
-/
import Sagittarius.BigEndian

open BigEndian

namespace Codec

/-- `codec::Error`. -/
inductive Error where
  | messageTooShort (len : Nat)
  | invalidQuestionCount (count : UInt16)
  | notARequest
  | unsupportedOpcode (opcode : UInt8)
  | compressionPointerInQuestion
  | unexpectedEof (offset needed available : Nat)
  | truncatedLengthPrefix (len : Nat)
  | labelTooLong (len : Nat)
  | nameTooLong (len : Nat)
  | nameSkipLimitExceeded
  | invalidPointerTarget (target : UInt16) (msgLen : Nat)
  | emptyLabel
  | invalidLabelByte (byte : UInt8)
  | messageTooLong (len : Nat)
  deriving DecidableEq, Repr

/-- A result that passes a test. -/
theorem exists_ok_of_any {ε α : Type} {x : Except ε α} {p : α → Bool}
    (h : x.toOption.any p = true) : ∃ a, x = .ok a ∧ p a = true := by
  cases x with
  | error e => cases h
  | ok a => exact ⟨a, rfl, h⟩

/-- A positional cursor over a buffer. -/
@[ext] structure Reader where
  buf : Bytes
  pos : Nat
  deriving DecidableEq, Repr

/-- A computation over a `Reader` that may fail. -/
abbrev ReadM := EStateM Error Reader

namespace Reader

def new (buf : Bytes) : Reader := ⟨buf, 0⟩

def remaining (r : Reader) : Nat := r.buf.length - r.pos

/-- The canonical `UnexpectedEof` for the current position. -/
def eof (r : Reader) (needed : Nat) : Error := .unexpectedEof r.pos needed r.remaining

/-- The reader `n` bytes further on. -/
def advance (r : Reader) (n : Nat) : Reader := ⟨r.buf, r.pos + n⟩

@[simp] theorem advance_buf (r : Reader) (n : Nat) : (r.advance n).buf = r.buf := rfl

@[simp] theorem advance_pos (r : Reader) (n : Nat) : (r.advance n).pos = r.pos + n := rfl

@[simp] theorem advance_advance (r : Reader) (m n : Nat) :
    (r.advance m).advance n = r.advance (m + n) := by
  simp [advance, Nat.add_assoc]

def position : ReadM Nat := fun r => .ok r.pos r

def readU8 : ReadM UInt8 := fun r =>
  match r.buf[r.pos]? with
  | some byte => .ok byte (r.advance 1)
  | none => .error (r.eof 1) r

def readU16 : ReadM UInt16 := fun r =>
  match slice? r.buf r.pos (r.pos + 2) with
  | some [a, b] => .ok (ofBe16 a b) (r.advance 2)
  | _ => .error (r.eof 2) r

def readU32 : ReadM UInt32 := fun r =>
  match slice? r.buf r.pos (r.pos + 4) with
  | some [a, b, c, d] => .ok (ofBe32 a b c d) (r.advance 4)
  | _ => .error (r.eof 4) r

def readSlice (n : Nat) : ReadM Bytes := fun r =>
  if r.pos + n > r.buf.length then .error (r.eof n) r
  else .ok ((r.buf.drop r.pos).take n) (r.advance n)

end Reader

/-! ### What each read returns -/

/-- `EStateM` binds compose on success: the peeling rule of every parser. -/
theorem bind_ok_iff {α β : Type} {x : ReadM α} {f : α → ReadM β} {r r' : Reader} {b : β} :
    (x >>= f) r = .ok b r' ↔ ∃ a r₁, x r = .ok a r₁ ∧ f a r₁ = .ok b r' := by
  show EStateM.bind x f r = .ok b r' ↔ _
  rw [EStateM.bind]
  cases hx : x r with
  | ok a r₁ => simp
  | error e r₁ => simp

/-- A bind whose first computation is known to succeed. -/
theorem bind_of_ok {α β : Type} {x : ReadM α} {f : α → ReadM β} {r r₁ : Reader} {a : α}
    (h : x r = .ok a r₁) : (x >>= f) r = f a r₁ := by
  show EStateM.bind x f r = f a r₁
  rw [EStateM.bind, h]

@[simp] theorem pure_ok_iff {α : Type} {a b : α} {r r' : Reader} :
    (pure a : ReadM α) r = .ok b r' ↔ a = b ∧ r = r' := by
  show EStateM.Result.ok a r = .ok b r' ↔ _
  simp

@[simp] theorem throw_ok_iff {α : Type} {e : Error} {b : α} {r r' : Reader} :
    (throw e : ReadM α) r = .ok b r' ↔ False := by
  show EStateM.Result.error e r = .ok b r' ↔ _
  simp

namespace Reader

theorem readU8_ok_iff {r r' : Reader} {v : UInt8} :
    readU8 r = .ok v r' ↔ r' = r.advance 1 ∧ [v] <+: r.buf.drop r.pos := by
  rw [readU8]
  cases hd : r.buf.drop r.pos with
  | nil =>
    have : r.buf[r.pos]? = none := by simpa using hd
    simp [this]
  | cons b rest =>
    have : r.buf[r.pos]? = some b := by
      rw [← Nat.add_zero r.pos, ← List.getElem?_drop, hd]
      rfl
    simp only [this, EStateM.Result.ok.injEq, List.cons_prefix_cons, List.nil_prefix, and_true]
    exact ⟨fun ⟨h1, h2⟩ => ⟨h2.symm, h1.symm⟩, fun ⟨h1, h2⟩ => ⟨h2.symm, h1.symm⟩⟩

/-- A slice of exactly the bytes `w`, at the cursor. -/
theorem slice?_eq_some_iff {r : Reader} {n : Nat} {w : Bytes} (hw : w.length = n) :
    slice? r.buf r.pos (r.pos + n) = some w ↔ (0 < n ∨ r.pos ≤ r.buf.length) ∧
      w <+: r.buf.drop r.pos := by
  rw [slice?]
  constructor
  · intro h
    split at h
    · rename_i hle
      rw [Option.some_inj] at h
      refine ⟨Or.inr (by omega), ?_⟩
      rw [← h]
      exact List.take_prefix _ _
    · exact absurd h (by simp)
  · rintro ⟨hpos, rest, hrest⟩
    have hlen := congrArg List.length hrest
    rw [List.length_append, List.length_drop] at hlen
    rw [if_pos (by omega), ← hrest]
    simp [hw]

theorem readU16_ok_iff {r r' : Reader} {v : UInt16} :
    readU16 r = .ok v r' ↔ r' = r.advance 2 ∧ be16 v <+: r.buf.drop r.pos := by
  have key : ∀ w : Bytes, w.length = 2 →
      (slice? r.buf r.pos (r.pos + 2) = some w ↔ w <+: r.buf.drop r.pos) := by
    intro w hw
    rw [slice?_eq_some_iff hw]
    simp
  constructor
  · intro h
    rw [readU16] at h
    split at h
    · rename_i a b hs
      simp only [EStateM.Result.ok.injEq] at h
      obtain ⟨rfl, rfl⟩ := h
      rw [be16_ofBe16]
      exact ⟨rfl, (key _ rfl).mp hs⟩
    · exact absurd h (by simp)
  · rintro ⟨rfl, h⟩
    rw [readU16, (key _ (be16_length v)).mpr h]
    simp only [be16, ofBe16_be16]

theorem readU32_ok_iff {r r' : Reader} {v : UInt32} :
    readU32 r = .ok v r' ↔ r' = r.advance 4 ∧ be32 v <+: r.buf.drop r.pos := by
  have key : ∀ w : Bytes, w.length = 4 →
      (slice? r.buf r.pos (r.pos + 4) = some w ↔ w <+: r.buf.drop r.pos) := by
    intro w hw
    rw [slice?_eq_some_iff hw]
    simp
  constructor
  · intro h
    rw [readU32] at h
    split at h
    · rename_i a b c d hs
      simp only [EStateM.Result.ok.injEq] at h
      obtain ⟨rfl, rfl⟩ := h
      rw [be32_ofBe32]
      exact ⟨rfl, (key _ rfl).mp hs⟩
    · exact absurd h (by simp)
  · rintro ⟨rfl, h⟩
    rw [readU32, (key _ (be32_length v)).mpr h]
    simp only [be32, ofBe32_be32]

theorem readSlice_ok_iff {r r' : Reader} {n : Nat} {w : Bytes} :
    readSlice n r = .ok w r' ↔ r' = r.advance n ∧ r.pos + n ≤ r.buf.length ∧
      w.length = n ∧ w <+: r.buf.drop r.pos := by
  rw [readSlice]
  constructor
  · intro h
    split at h
    · exact absurd h (by simp)
    · rename_i hle
      simp only [EStateM.Result.ok.injEq] at h
      obtain ⟨rfl, rfl⟩ := h
      refine ⟨rfl, by omega, ?_, List.take_prefix _ _⟩
      rw [List.length_take, List.length_drop]
      omega
  · rintro ⟨rfl, hle, hlen, hpre⟩
    rw [if_neg (by omega), ← hlen, ← List.prefix_iff_eq_take.mp hpre]

theorem position_ok_iff {r r' : Reader} {pos : Nat} :
    position r = .ok pos r' ↔ r.pos = pos ∧ r = r' := by
  rw [position, EStateM.Result.ok.injEq]

/-! ### A reader over a known message -/

/-- The bytes from the cursor on are exactly `rest`. -/
structure At (r : Reader) (rest : Bytes) : Prop where
  pos_le : r.pos ≤ r.buf.length
  drop_eq : r.buf.drop r.pos = rest

theorem at_new (buf : Bytes) : (new buf).At buf := ⟨Nat.zero_le _, rfl⟩

/-- Past the first bytes of the rest, the rest is what follows them. -/
theorem At.advance {r : Reader} {xs rest : Bytes} (h : r.At (xs ++ rest)) {n : Nat}
    (hn : xs.length = n) : (r.advance n).At rest := by
  have hlen := congrArg List.length h.drop_eq
  simp only [List.length_drop, List.length_append] at hlen
  have hle := h.pos_le
  refine ⟨?_, ?_⟩
  · show r.pos + n ≤ r.buf.length
    omega
  · show r.buf.drop (r.pos + n) = rest
    rw [← List.drop_drop, h.drop_eq, ← hn, List.drop_left]

/-- With nothing left, the cursor stands at the end. -/
theorem At.pos_eq {r : Reader} (h : r.At []) : r.pos = r.buf.length :=
  Nat.le_antisymm h.pos_le (List.drop_eq_nil_iff.mp h.drop_eq)

theorem At.prefix {r : Reader} {xs rest : Bytes} (h : r.At (xs ++ rest)) :
    xs <+: r.buf.drop r.pos := by
  rw [h.drop_eq]
  exact List.prefix_append xs rest

theorem At.readU16 {r : Reader} {v : UInt16} {rest : Bytes} (h : r.At (be16 v ++ rest)) :
    readU16 r = .ok v (r.advance 2) := readU16_ok_iff.mpr ⟨rfl, h.prefix⟩

theorem At.readU32 {r : Reader} {v : UInt32} {rest : Bytes} (h : r.At (be32 v ++ rest)) :
    readU32 r = .ok v (r.advance 4) := readU32_ok_iff.mpr ⟨rfl, h.prefix⟩

theorem At.readSlice {r : Reader} {w rest : Bytes} (h : r.At (w ++ rest)) {n : Nat}
    (hn : w.length = n) : readSlice n r = .ok w (r.advance n) :=
  readSlice_ok_iff.mpr ⟨rfl, (h.advance hn).pos_le, hn, h.prefix⟩

end Reader

/-! ### Readers that stay in their buffer -/

/-- The reader a computation leaves behind, however it ends. -/
def leaves {α : Type} (x : ReadM α) (r : Reader) : Reader :=
  match x r with
  | .ok _ r' => r'
  | .error _ r' => r'

/-- The cursor does not move back, and does not leave the buffer. -/
def Stays {α : Type} (x : ReadM α) : Prop :=
  ∀ r : Reader, (leaves x r).buf = r.buf ∧ r.pos ≤ (leaves x r).pos ∧
    (r.pos ≤ r.buf.length → (leaves x r).pos ≤ r.buf.length)

theorem leaves_of_ok {α : Type} {x : ReadM α} {r r' : Reader} {a : α} (h : x r = .ok a r') :
    leaves x r = r' := by
  rw [leaves, h]

namespace Stays

variable {α β : Type}

theorem pure (a : α) : Stays (Pure.pure a) := fun _ => ⟨rfl, Nat.le_refl _, id⟩

theorem throw (e : Error) : Stays (MonadExcept.throw e : ReadM α) :=
  fun _ => ⟨rfl, Nat.le_refl _, id⟩

theorem position : Stays Reader.position := fun _ => ⟨rfl, Nat.le_refl _, id⟩

theorem readSlice (n : Nat) : Stays (Reader.readSlice n) := by
  intro r
  rw [leaves, Reader.readSlice]
  split_ifs with hend
  · exact ⟨rfl, Nat.le_refl _, id⟩
  · exact ⟨rfl, Nat.le_add_right _ _, fun _ => Nat.not_lt.mp hend⟩

theorem bind {x : ReadM α} {f : α → ReadM β} (hx : Stays x) (hf : ∀ a, Stays (f a)) :
    Stays (x >>= f) := by
  intro r
  cases hres : x r with
  | error e r₁ =>
    have hleaves : leaves (x >>= f) r = leaves x r := by
      show (match EStateM.bind x f r with | .ok _ r' => r' | .error _ r' => r') = _
      rw [EStateM.bind, leaves, hres]
    rw [hleaves]
    exact hx r
  | ok a r₁ =>
    have hleaves : leaves (x >>= f) r = leaves (f a) r₁ := by
      rw [leaves, bind_of_ok hres, leaves]
    obtain ⟨hbuf, hle, hend⟩ := hx r
    rw [leaves_of_ok hres] at hbuf hle hend
    obtain ⟨hbuf', hle', hend'⟩ := hf a r₁
    rw [hleaves]
    rw [hbuf] at hbuf' hend'
    exact ⟨hbuf', Nat.le_trans hle hle', fun h => hend' (hend h)⟩

theorem ite {p : Prop} [Decidable p] {x y : ReadM α} (hx : Stays x) (hy : Stays y) :
    Stays (if p then x else y) := by
  split_ifs
  · exact hx
  · exact hy

/-- A computation that succeeds leaves the buffer, and does not move back. -/
theorem of_ok {x : ReadM α} (hx : Stays x) {r r' : Reader} {a : α} (h : x r = .ok a r') :
    r'.buf = r.buf ∧ r.pos ≤ r'.pos ∧ (r.pos ≤ r.buf.length → r'.pos ≤ r.buf.length) :=
  leaves_of_ok h ▸ hx r

end Stays

/-! ### The writer -/

/-- The append-only output buffer; `finish` hands out the bytes written. -/
abbrev Writer := Bytes

namespace Writer

def new : Writer := []

def writeU8 (w : Writer) (v : UInt8) : Writer := w ++ [v]

def writeU16 (w : Writer) (v : UInt16) : Writer := w ++ be16 v

def writeU32 (w : Writer) (v : UInt32) : Writer := w ++ be32 v

def writeSlice (w : Writer) (data : Bytes) : Writer := w ++ data

def finish (w : Writer) : Bytes := w

end Writer

end Codec

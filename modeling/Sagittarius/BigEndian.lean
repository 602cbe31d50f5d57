/-
Big-endian words as byte strings.

`be16` and `be32` write a machine word most significant byte first, `ofBe16`
and `ofBe32` read it back, and `slice?` is the checked sub-range of a buffer:

* `ofBe16_be16`, `ofBe32_be32` — reading back what was written;
* `be16_ofBe16`, `be32_ofBe32` — bytes are the encoding of the word they denote.

Words are `UInt16`/`UInt32`; the conversions are stated through `Nat`, so that
`omega` closes the arithmetic.
-/
import Mathlib.Data.List.Basic
import Mathlib.Tactic.Common

/-- A byte string. -/
abbrev Bytes := List UInt8

namespace BigEndian

/-- The two bytes of `v`, most significant first. -/
def be16 (v : UInt16) : Bytes :=
  [UInt8.ofNat (v.toNat / 256), UInt8.ofNat (v.toNat % 256)]

/-- The four bytes of `v`, most significant first. -/
def be32 (v : UInt32) : Bytes :=
  [UInt8.ofNat (v.toNat / 16777216), UInt8.ofNat (v.toNat / 65536 % 256),
    UInt8.ofNat (v.toNat / 256 % 256), UInt8.ofNat (v.toNat % 256)]

/-- The word with high byte `a` and low byte `b`. -/
def ofBe16 (a b : UInt8) : UInt16 := UInt16.ofNat (a.toNat * 256 + b.toNat)

/-- The word with bytes `a b c d`, most significant first. -/
def ofBe32 (a b c d : UInt8) : UInt32 :=
  UInt32.ofNat (((a.toNat * 256 + b.toNat) * 256 + c.toNat) * 256 + d.toNat)

@[simp] theorem be16_length (v : UInt16) : (be16 v).length = 2 := rfl

@[simp] theorem be32_length (v : UInt32) : (be32 v).length = 4 := rfl

theorem ofBe16_be16 (v : UInt16) :
    ofBe16 (UInt8.ofNat (v.toNat / 256)) (UInt8.ofNat (v.toNat % 256)) = v := by
  apply UInt16.toNat_inj.mp
  have hv := v.toNat_lt
  simp only [ofBe16, UInt8.toNat_ofNat', UInt16.toNat_ofNat']
  omega

theorem ofBe32_be32 (v : UInt32) :
    ofBe32 (UInt8.ofNat (v.toNat / 16777216)) (UInt8.ofNat (v.toNat / 65536 % 256))
      (UInt8.ofNat (v.toNat / 256 % 256)) (UInt8.ofNat (v.toNat % 256)) = v := by
  apply UInt32.toNat_inj.mp
  have hv := v.toNat_lt
  simp only [ofBe32, UInt8.toNat_ofNat', UInt32.toNat_ofNat']
  omega

theorem be16_ofBe16 (a b : UInt8) : be16 (ofBe16 a b) = [a, b] := by
  have ha := a.toNat_lt
  have hb := b.toNat_lt
  have hw : (ofBe16 a b).toNat = a.toNat * 256 + b.toNat := by
    simp only [ofBe16, UInt16.toNat_ofNat']
    omega
  have h1 : UInt8.ofNat ((a.toNat * 256 + b.toNat) / 256) = a := by
    apply UInt8.toNat_inj.mp
    rw [UInt8.toNat_ofNat']
    omega
  have h2 : UInt8.ofNat ((a.toNat * 256 + b.toNat) % 256) = b := by
    apply UInt8.toNat_inj.mp
    rw [UInt8.toNat_ofNat']
    omega
  rw [be16, hw, h1, h2]

theorem be32_ofBe32 (a b c d : UInt8) : be32 (ofBe32 a b c d) = [a, b, c, d] := by
  have ha := a.toNat_lt
  have hb := b.toNat_lt
  have hc := c.toNat_lt
  have hd := d.toNat_lt
  have hw : (ofBe32 a b c d).toNat
      = ((a.toNat * 256 + b.toNat) * 256 + c.toNat) * 256 + d.toNat := by
    simp only [ofBe32, UInt32.toNat_ofNat']
    omega
  have byte : ∀ (n : Nat) (x : UInt8), n % 256 = x.toNat → UInt8.ofNat n = x := by
    intro n x h
    apply UInt8.toNat_inj.mp
    rw [UInt8.toNat_ofNat']
    omega
  rw [be32, hw, byte _ a (by omega), byte _ b (by omega), byte _ c (by omega),
    byte _ d (by omega)]

/-- Bytes `i` to `j` of `b` (`j` excluded), when the range lies inside `b`. -/
def slice? (b : Bytes) (i j : Nat) : Option Bytes :=
  if i ≤ j ∧ j ≤ b.length then some ((b.drop i).take (j - i)) else none

/-- The range of a middle part is that part. -/
theorem slice?_middle {xs ys zs : Bytes} {i n : Nat} (hi : xs.length = i) (hn : ys.length = n) :
    slice? (xs ++ (ys ++ zs)) i (i + n) = some ys := by
  have hle : i + n ≤ (xs ++ (ys ++ zs)).length := by
    simp only [List.length_append]
    omega
  rw [slice?, if_pos ⟨Nat.le_add_right i n, hle⟩, List.drop_left' hi, Nat.add_sub_cancel_left,
    List.take_left' hn]

/-- A range is read off the bytes up to its end. -/
theorem slice?_congr {a b : Bytes} {i j : Nat} (h : a.take j = b.take j) :
    slice? a i j = slice? b i j := by
  have hle : j ≤ a.length ↔ j ≤ b.length := by
    have := congrArg List.length h
    simp only [List.length_take] at this
    omega
  have hdrop : (a.drop i).take (j - i) = (b.drop i).take (j - i) := by
    rw [← List.drop_take, ← List.drop_take, h]
  simp only [slice?, hle, hdrop]

end BigEndian

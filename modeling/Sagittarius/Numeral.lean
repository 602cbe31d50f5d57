/-
Numerals: printing and reading natural numbers in a radix up to 16.

Numbers are printed with `Nat.toDigits` and read digit by digit:

* `digitsValue_toDigits` — the digits of a number have its value;
* `head_toDigits_ne_zero` — only zero is printed with a leading zero;
* `readNumber_toDigits` — a printed number is read back, up to the first
  character that is no digit;
* `toDigits_digitsValue` — digits without a leading zero are printed back.
-/
import Mathlib.Algebra.Group.Nat.Defs
import Mathlib.Data.List.Basic
import Mathlib.Data.List.Induction
import Mathlib.Tactic.Common

namespace Numeral

/-- The value of a digit in a radix (`char::to_digit`). -/
def toDigit (radix : Nat) (c : Char) : Option Nat :=
  let d :=
    if '0' ≤ c ∧ c ≤ '9' then c.toNat - 48
    else if 'a' ≤ c ∧ c ≤ 'z' then c.toNat - 87
    else if 'A' ≤ c ∧ c ≤ 'Z' then c.toNat - 55
    else radix
  if d < radix then some d else none

def isDigit (radix : Nat) (c : Char) : Bool := (toDigit radix c).isSome

/-- The value of a list of digits, most significant first. -/
def digitsValue (radix : Nat) (cs : List Char) : Nat :=
  cs.foldl (fun acc c => acc * radix + (toDigit radix c).getD 0) 0

/-- Read a number below `bound`: the digits up to the first other character,
at most `maxDigits` of them where a limit is given. -/
def readNumber (radix : Nat) (maxDigits : Option Nat) (allowZeroPrefix : Bool) (bound : Nat)
    (cs : List Char) : Option (Nat × List Char) :=
  let digits := cs.takeWhile (isDigit radix)
  if digits = [] ∨ maxDigits.any (· < digits.length) then none
  else if allowZeroPrefix = false ∧ digits.head? = some '0' ∧ digits.length > 1 then none
  else if digitsValue radix digits < bound then
    some (digitsValue radix digits, cs.dropWhile (isDigit radix))
  else none

/-- Read an unsigned decimal number below `bound` that is the whole text, with
an optional plus sign (`FromStr` of the unsigned integer types). -/
def parseUnsigned (bound : Nat) (cs : List Char) : Option Nat :=
  let digits := match cs with
    | '+' :: ds => ds
    | ds => ds
  if digits = [] ∨ ¬ digits.all (isDigit 10) then none
  else if digitsValue 10 digits < bound then some (digitsValue 10 digits) else none

/-! ### Reading what was printed -/

theorem toDigit_digitChar {radix d : Nat} (hradix : radix ≤ 16) (hd : d < radix) :
    toDigit radix d.digitChar = some d := by
  have key : ∀ b < 17, ∀ n < b, toDigit b (Nat.digitChar n) = some n := by decide
  exact key radix (by omega) d hd

/-- Induction over the printed form: one digit, or a printed number and one
more digit. -/
theorem toDigits_induction {radix : Nat} (hradix : 1 < radix) {motive : Nat → Prop}
    (small : ∀ n, n < radix → motive n)
    (large : ∀ n, radix ≤ n → motive (n / radix) → motive n) (n : Nat) : motive n := by
  induction n using Nat.strongRecOn with
  | _ n ih =>
    by_cases h : n < radix
    · exact small n h
    · exact large n (by omega) (ih (n / radix) (Nat.div_lt_self (by omega) hradix))

theorem isDigit_of_mem_toDigits {radix : Nat} (h1 : 1 < radix) (h16 : radix ≤ 16) (n : Nat) :
    ∀ c ∈ Nat.toDigits radix n, isDigit radix c = true := by
  induction n using toDigits_induction h1 with
  | small n h =>
    intro c hc
    rw [Nat.toDigits_of_lt_base h, List.mem_singleton] at hc
    rw [hc, isDigit, toDigit_digitChar h16 h]
    rfl
  | large n h ih =>
    intro c hc
    rw [Nat.toDigits_of_base_le h1 h, List.mem_append, List.mem_singleton] at hc
    rcases hc with hc | rfl
    · exact ih c hc
    · rw [isDigit, toDigit_digitChar h16 (Nat.mod_lt n (by omega))]
      rfl

/-- A number is printed with digits. -/
theorem mem_toDigits {radix : Nat} (h1 : 1 < radix) (h16 : radix ≤ 16) (n : Nat) :
    ∀ c ∈ Nat.toDigits radix n, ∃ d < 16, c = Nat.digitChar d := by
  induction n using toDigits_induction h1 with
  | small n h =>
    intro c hc
    rw [Nat.toDigits_of_lt_base h, List.mem_singleton] at hc
    exact ⟨n, by omega, hc⟩
  | large n h ih =>
    intro c hc
    rw [Nat.toDigits_of_base_le h1 h, List.mem_append, List.mem_singleton] at hc
    rcases hc with hc | rfl
    · exact ih c hc
    · exact ⟨_, by have := Nat.mod_lt n (show radix > 0 by omega); omega, rfl⟩

theorem digitsValue_toDigits {radix : Nat} (h1 : 1 < radix) (h16 : radix ≤ 16) (n : Nat) :
    digitsValue radix (Nat.toDigits radix n) = n := by
  induction n using toDigits_induction h1 with
  | small n h =>
    rw [Nat.toDigits_of_lt_base h]
    simp [digitsValue, toDigit_digitChar h16 h]
  | large n h ih =>
    rw [digitsValue] at ih
    rw [Nat.toDigits_of_base_le h1 h, digitsValue, List.foldl_append, ih]
    simp only [List.foldl_cons, List.foldl_nil, toDigit_digitChar h16 (Nat.mod_lt n (by omega)),
      Option.getD_some]
    exact Nat.div_add_mod' n radix

theorem head_toDigits_ne_zero {radix : Nat} (h1 : 1 < radix) (n : Nat) (hn : n ≠ 0) :
    (Nat.toDigits radix n).head? ≠ some '0' := by
  induction n using toDigits_induction h1 with
  | small n h =>
    rw [Nat.toDigits_of_lt_base h]
    simpa using hn
  | large n h ih =>
    have hdiv : n / radix ≠ 0 := by
      have := Nat.div_pos h (by omega)
      omega
    rw [Nat.toDigits_of_base_le h1 h, List.head?_append_of_ne_nil _ Nat.toDigits_ne_nil]
    exact ih hdiv

/-- A text that does not go on with a digit. -/
def Stops (radix : Nat) (rest : List Char) : Prop :=
  ∀ c, rest.head? = some c → isDigit radix c = false

theorem takeWhile_digits {radix : Nat} {ds rest : List Char} (hds : ∀ c ∈ ds, isDigit radix c = true)
    (hrest : Stops radix rest) : (ds ++ rest).takeWhile (isDigit radix) = ds := by
  have hnil : rest.takeWhile (isDigit radix) = [] := by
    cases rest with
    | nil => rfl
    | cons c rest => simp [hrest c rfl]
  rw [List.takeWhile_append_of_pos hds, hnil, List.append_nil]

theorem dropWhile_digits {radix : Nat} {ds rest : List Char} (hds : ∀ c ∈ ds, isDigit radix c = true)
    (hrest : Stops radix rest) : (ds ++ rest).dropWhile (isDigit radix) = rest := by
  have hrest' : rest.dropWhile (isDigit radix) = rest := by
    cases rest with
    | nil => rfl
    | cons c rest => simp [hrest c rfl]
  rw [List.dropWhile_append_of_pos hds, hrest']

/-- **A printed number is read back.** -/
theorem readNumber_toDigits {radix n bound : Nat} {rest : List Char} (h1 : 1 < radix)
    (h16 : radix ≤ 16) (hbound : n < bound) (hrest : Stops radix rest) {max : Option Nat}
    (hmax : ∀ k ∈ max, 0 < k ∧ n < radix ^ k) (allowZeroPrefix : Bool) :
    readNumber radix max allowZeroPrefix bound (Nat.toDigits radix n ++ rest) = some (n, rest) := by
  have hdigits := isDigit_of_mem_toDigits h1 h16 n
  have hlen : max.any (· < (Nat.toDigits radix n).length) = false := by
    cases max with
    | none => rfl
    | some k =>
      obtain ⟨hk, hn⟩ := hmax k rfl
      have := (Nat.length_toDigits_le_iff h1 hk).mpr hn
      simpa using this
  have hzero : ¬ (allowZeroPrefix = false ∧ (Nat.toDigits radix n).head? = some '0' ∧
      (Nat.toDigits radix n).length > 1) := by
    rintro ⟨_, hhead, hone⟩
    by_cases hn : n = 0
    · subst hn
      rw [Nat.toDigits_zero] at hone
      exact absurd hone (by simp)
    · exact head_toDigits_ne_zero h1 n hn hhead
  rw [readNumber, takeWhile_digits hdigits hrest, dropWhile_digits hdigits hrest,
    digitsValue_toDigits h1 h16]
  simp only [hlen, Nat.toDigits_ne_nil, Bool.false_eq_true, or_self, if_false, hzero, hbound,
    if_true]

/-! ### Printing what was read -/

theorem toNat_digitChar {d : Nat} (h : d < 16) :
    d.digitChar.toNat = if d < 10 then 48 + d else 87 + d := by
  have key : ∀ v < 16, (Nat.digitChar v).toNat = if v < 10 then 48 + v else 87 + v := by decide
  exact key d h

theorem toNat_le_toNat {c c' : Char} (h : c ≤ c') : c.toNat ≤ c'.toNat :=
  UInt32.le_iff_toNat_le.mp h

/-- Where the digits are: the decimal ones, the small letters and the capitals. -/
theorem toDigit_eq_some {radix d : Nat} {c : Char} (h : toDigit radix c = some d) :
    d < radix ∧ ((d < 10 ∧ c.toNat = 48 + d) ∨ (10 ≤ d ∧ c.toNat = 87 + d) ∨
      (10 ≤ d ∧ 'A' ≤ c ∧ c ≤ 'Z')) := by
  have h0 : ('0' : Char).toNat = 48 := rfl
  have h9 : ('9' : Char).toNat = 57 := rfl
  have ha : ('a' : Char).toNat = 97 := rfl
  have hA : ('A' : Char).toNat = 65 := rfl
  rw [toDigit] at h
  obtain ⟨hlt, h⟩ := Option.ite_none_right_eq_some.mp h
  rw [Option.some_inj] at h
  rw [h] at hlt
  refine ⟨hlt, ?_⟩
  split_ifs at h with hdec hlow hcap
  · have hfrom := toNat_le_toNat hdec.1
    have hto := toNat_le_toNat hdec.2
    exact .inl (by omega)
  · have hfrom := toNat_le_toNat hlow.1
    exact .inr (.inl (by omega))
  · have hfrom := toNat_le_toNat hcap.1
    exact .inr (.inr ⟨by omega, hcap⟩)
  · omega

/-- A digit that is no capital is printed as itself. -/
theorem digitChar_of_toDigit {radix d : Nat} {c : Char} (hradix : radix ≤ 16)
    (h : toDigit radix c = some d) (hcapital : ¬ ('A' ≤ c ∧ c ≤ 'Z')) : d.digitChar = c := by
  obtain ⟨hlt, hd⟩ := toDigit_eq_some h
  apply Char.toNat_inj.mp
  rw [toNat_digitChar (by omega)]
  obtain ⟨hd, hc⟩ | ⟨hd, hc⟩ | ⟨-, hc⟩ := hd
  · rw [if_pos hd, hc]
  · rw [if_neg (by omega), hc]
  · exact absurd hc hcapital

/-- No letter is a decimal digit. -/
theorem digitChar_of_toDigit_ten {d : Nat} {c : Char} (h : toDigit 10 c = some d) :
    d.digitChar = c := by
  refine digitChar_of_toDigit (by omega) h ?_
  rintro ⟨hfrom, hto⟩
  have h1 := toNat_le_toNat hfrom
  have hA : ('A' : Char).toNat = 65 := rfl
  obtain ⟨hlt, hd⟩ := toDigit_eq_some h
  omega

theorem digitsValue_concat (radix : Nat) (ds : List Char) (c : Char) :
    digitsValue radix (ds ++ [c]) = digitsValue radix ds * radix + (toDigit radix c).getD 0 := by
  rw [digitsValue, List.foldl_append]
  rfl

/-- Digits that do not start with a zero have a value. -/
theorem digitsValue_pos {ds : List Char} (hds : ∀ c ∈ ds, isDigit 10 c = true) (hne : ds ≠ [])
    (hhead : ds.head? ≠ some '0') : 0 < digitsValue 10 ds := by
  induction ds using List.reverseRecOn with
  | nil => exact absurd rfl hne
  | append_singleton ds c ih =>
    rw [digitsValue_concat]
    by_cases hnil : ds = []
    · subst hnil
      have hc := hds c (by simp)
      obtain ⟨d, hd⟩ := Option.isSome_iff_exists.mp hc
      have hprint := digitChar_of_toDigit_ten hd
      have hpos : d ≠ 0 := by
        rintro rfl
        exact hhead (by rw [← hprint]; rfl)
      rw [hd, Option.getD_some]
      omega
    · have hpos := ih (fun c' hc' => hds c' (by simp [hc'])) hnil
        (by rwa [List.head?_append_of_ne_nil _ hnil] at hhead)
      omega

/-- **Digits without a leading zero are printed back.** -/
theorem toDigits_digitsValue {ds : List Char} (hds : ∀ c ∈ ds, isDigit 10 c = true) (hne : ds ≠ [])
    (hhead : ds.head? = some '0' → ds.length = 1) : Nat.toDigits 10 (digitsValue 10 ds) = ds := by
  induction ds using List.reverseRecOn with
  | nil => exact absurd rfl hne
  | append_singleton ds c ih =>
    have hc := hds c (by simp)
    obtain ⟨d, hd⟩ := Option.isSome_iff_exists.mp hc
    have hprint := digitChar_of_toDigit_ten hd
    have hlt := (toDigit_eq_some hd).1
    rw [digitsValue_concat, hd, Option.getD_some]
    by_cases hnil : ds = []
    · subst hnil
      rw [digitsValue, List.foldl_nil, Nat.zero_mul, Nat.zero_add, Nat.toDigits_of_lt_base hlt,
        hprint]
      rfl
    · -- A digit before it: then the first one is no zero, and the number is at least ten.
      have hds' : ∀ c' ∈ ds, isDigit 10 c' = true := fun c' hc' => hds c' (by simp [hc'])
      have hzero : ds.head? ≠ some '0' := by
        intro h0
        have hlen := hhead (by rw [List.head?_append_of_ne_nil _ hnil, h0])
        have := List.length_pos_iff.mpr hnil
        rw [List.length_append, List.length_singleton] at hlen
        omega
      have hpos := digitsValue_pos hds' hnil hzero
      rw [Nat.toDigits_of_base_le (by omega) (by omega), ← hprint]
      have hdiv : (digitsValue 10 ds * 10 + d) / 10 = digitsValue 10 ds := by omega
      have hmod : (digitsValue 10 ds * 10 + d) % 10 = d := by omega
      rw [hdiv, hmod, ih hds' hnil (fun h0 => absurd h0 hzero)]

/-- A padded number is not what is printed. -/
theorem toDigits_ne_of_padded {ds : List Char} (hhead : ds.head? = some '0') (hlen : 1 < ds.length)
    (n : Nat) : Nat.toDigits 10 n ≠ ds := by
  rintro rfl
  by_cases hn : n = 0
  · subst hn
    simp at hlen
  · exact head_toDigits_ne_zero (by omega) n hn hhead

/-- What is read as an unsigned number, if it has no sign. -/
theorem parseUnsigned_eq_some {bound n : Nat} {cs : List Char} (hplus : '+' ∉ cs) :
    parseUnsigned bound cs = some n ↔
      cs ≠ [] ∧ (∀ c ∈ cs, isDigit 10 c = true) ∧ digitsValue 10 cs = n ∧ n < bound := by
  rw [parseUnsigned]
  · simp only [List.all_eq_true]
    split_ifs with h1 h2
    · refine iff_of_false (by simp) ?_
      rintro ⟨hne, hall, -⟩
      rcases h1 with h1 | h1
      · exact hne h1
      · exact h1 hall
    · push Not at h1
      rw [Option.some_inj]
      constructor
      · rintro rfl
        exact ⟨h1.1, h1.2, rfl, h2⟩
      · rintro ⟨-, -, rfl, -⟩
        rfl
    · refine iff_of_false (by simp) ?_
      rintro ⟨-, -, rfl, hlt⟩
      exact h2 hlt
  · rintro ds rfl
    exact hplus List.mem_cons_self

end Numeral

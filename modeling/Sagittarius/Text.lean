/-
Trimming text at its ends, and its case.

* `trimBy_eq_self` — text that neither starts nor ends with a character to trim
  is left as it is;
* `trimBy_wrap` — trimming takes off what was put around such text;
* `trimBy_eq_iff` — what is left of any text;
* `toLower_toLower` — text in lower case stays in lower case.
-/
import Mathlib.Data.List.DropRight

namespace Text

/-- `char::is_whitespace`: the Unicode `White_Space` property. -/
def isWhitespace (c : Char) : Bool :=
  let n := c.toNat
  (9 ≤ n && n ≤ 13) || n == 0x20 || n == 0x85 || n == 0xA0 || n == 0x1680 ||
    (0x2000 ≤ n && n ≤ 0x200A) || n == 0x2028 || n == 0x2029 || n == 0x202F || n == 0x205F ||
    n == 0x3000

/-- Drop the characters of a kind from both ends. -/
def trimBy (p : Char → Bool) (cs : List Char) : List Char := (cs.dropWhile p).rdropWhile p

/-- `trim_start_matches` of a pattern of two characters. -/
def trimStartPair (a b : Char) : List Char → List Char
  | c :: d :: cs => if c = a ∧ d = b then trimStartPair a b cs else c :: d :: cs
  | cs => cs

/-- `str::trim`. -/
def trim (s : String) : String := String.ofList (trimBy isWhitespace s.toList)

variable {p : Char → Bool} {cs : List Char}

theorem trimBy_eq_self (h : ∀ c ∈ cs, p c = false) : trimBy p cs = cs := by
  have hstart : cs.dropWhile p = cs := by
    rw [List.dropWhile_eq_self_iff]
    intro hlen
    simp [h _ (List.getElem_mem hlen)]
  rw [trimBy, hstart, List.rdropWhile_eq_self_iff]
  intro hne
  simp [h _ (List.getLast_mem hne)]

/-- Quotes around text without them are trimmed off. -/
theorem trimBy_wrap {c : Char} (hc : p c = true) (h : ∀ d ∈ cs, p d = false) :
    trimBy p (c :: (cs ++ [c])) = cs := by
  rw [trimBy, List.dropWhile_cons_of_pos hc]
  cases cs with
  | nil => simp [hc]
  | cons d cs =>
    have hd : p d = false := h d List.mem_cons_self
    rw [List.cons_append, List.dropWhile_cons_of_neg (by simp [hd]), ← List.cons_append,
      List.rdropWhile_concat_pos _ _ _ hc, List.rdropWhile_eq_self_iff]
    intro hne
    simp [h _ (List.getLast_mem hne)]

theorem dropWhile_append_of_head {l t : List Char} (hl : ∀ c ∈ l, p c = true)
    (ht : ∀ c, t.head? = some c → p c = false) : (l ++ t).dropWhile p = t := by
  rw [List.dropWhile_append_of_pos hl]
  cases t with
  | nil => rfl
  | cons c t => exact List.dropWhile_cons_of_neg (by simp [ht c rfl])

/-- **What trimming leaves**: all but characters of the kind at both ends. -/
theorem trimBy_eq_iff {t : List Char} (hne : t ≠ []) : trimBy p cs = t ↔
    ∃ left right, cs = left ++ (t ++ right) ∧ (∀ c ∈ left, p c = true) ∧
      (∀ c ∈ right, p c = true) ∧ (∀ c, t.head? = some c → p c = false) ∧
      (∀ c, t.getLast? = some c → p c = false) := by
  constructor
  · rintro rfl
    rw [trimBy] at hne ⊢
    have hsplit : (cs.dropWhile p).rdropWhile p ++ (cs.dropWhile p).rtakeWhile p = cs.dropWhile p :=
      List.rdropWhile_append_rtakeWhile
    refine ⟨cs.takeWhile p, (cs.dropWhile p).rtakeWhile p, ?_, ?_, ?_, ?_, ?_⟩
    · rw [hsplit, List.takeWhile_append_dropWhile]
    · intro c hc
      exact List.mem_takeWhile_imp hc
    · intro c hc
      exact List.mem_rtakeWhile_imp hc
    · -- The first character left is the first that is not dropped at the start.
      intro c hc
      have hfirst : (cs.dropWhile p).head? = some c := by
        rw [← hsplit, List.head?_append_of_ne_nil _ hne]
        exact hc
      have hkept := List.head?_dropWhile_not p cs
      rw [hfirst] at hkept
      exact hkept
    · intro c hc
      have hlast := List.rdropWhile_last_not p (cs.dropWhile p) hne
      rw [List.getLast?_eq_some_getLast hne, Option.some_inj] at hc
      rwa [hc, Bool.not_eq_true] at hlast
  · rintro ⟨left, right, rfl, hleft, hright, hhead, hlast⟩
    have hhead' : ∀ c, (t ++ right).head? = some c → p c = false := by
      intro c hc
      rw [List.head?_append_of_ne_nil _ hne] at hc
      exact hhead c hc
    rw [trimBy, dropWhile_append_of_head hleft hhead', List.rdropWhile, List.reverse_append]
    rw [dropWhile_append_of_head]
    · exact List.reverse_reverse t
    · simpa using hright
    · intro c hc
      rw [List.head?_reverse] at hc
      exact hlast c hc

theorem toLower_toLower (c : Char) : c.toLower.toLower = c.toLower := by
  by_cases h : 'A'.val ≤ c.val ∧ c.val ≤ 'Z'.val
  · have hlower : c.toLower.val = c.val + ('a'.val - 'A'.val) := by
      exact congrArg Char.val (dif_pos h)
    have hnot : ¬ ('A'.val ≤ c.toLower.val ∧ c.toLower.val ≤ 'Z'.val) := by
      rw [hlower]
      have hfrom : (65 : UInt32) ≤ c.val := h.1
      have hto : c.val ≤ (90 : UInt32) := h.2
      show ¬ ((65 : UInt32) ≤ c.val + 32 ∧ c.val + 32 ≤ (90 : UInt32))
      grind
    exact dif_neg hnot
  · have hsame : c.toLower = c := dif_neg h
    rw [hsame, hsame]

end Text

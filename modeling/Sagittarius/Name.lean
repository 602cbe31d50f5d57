/-
Domain names: the text form, the question reader and the writer
(`codec/name.rs`).

A `Name` is its canonical text together with the proof that the text is
canonical (`CanonLabels`), so a name that breaks the length, label or case rules
cannot be built.  The two constructors of the source are `Name.fromStr` (text)
and `Name.readQuestion` (wire); each runs the source's loop and then packs the
normalized text with the proof that the loop only produces canonical text.

* `fromStrLoop_ok_iff` — the text loop accepts exactly the lists of valid raw
  labels that fit in 255 bytes, and returns them lowercased;
* `readLoop_ok_iff` — the wire loop does the same for the length-prefixed form;
* `fromStr_ok_iff_spells`, `readQuestion_ok_iff` — the two constructors, exactly;
* `write_eq` — the writer appends the wire form of the labels.

The wire loop is structural in a fuel argument: the accumulated length bounds
the number of rounds, so `readFuel` is never used up.
-/
import Sagittarius.Wire
import Sagittarius.Delimited

open BigEndian Delimited

namespace Codec

/-! ### Bytes and characters -/

/-- A property of bytes holds everywhere once it holds of every pair of nibbles. -/
@[elab_as_elim] theorem forall_byte {motive : UInt8 → Prop}
    (h : ∀ high < 16, ∀ low < 16, motive (UInt8.ofNat (16 * high + low))) (b : UInt8) :
    motive b := by
  have hb := b.toNat_lt
  have := h (b.toNat / 16) (by omega) (b.toNat % 16) (by omega)
  rwa [Nat.div_add_mod, UInt8.ofNat_toNat] at this

/-- `str::as_bytes`. -/
def asBytes (cs : List Char) : Bytes := cs.flatMap String.utf8EncodeChar

/-- `u8 as char`, bytewise. -/
def asChars (bs : Bytes) : List Char := bs.map Char.ofUInt8

/-- `u8::to_ascii_lowercase`. -/
def toAsciiLowercase (b : UInt8) : UInt8 := if 65 ≤ b ∧ b ≤ 90 then b + 32 else b

/-- `u8::is_ascii_alphanumeric`. -/
def isAsciiAlphanumeric (b : UInt8) : Bool :=
  (48 ≤ b && b ≤ 57) || (65 ≤ b && b ≤ 90) || (97 ≤ b && b ≤ 122)

/-- `b'-'`. -/
def hyphen : UInt8 := 0x2D

/-- `b'_'`. -/
def underscore : UInt8 := 0x5F

/-- The bytes a label may hold. -/
def labelByte (b : UInt8) : Bool :=
  isAsciiAlphanumeric b || b == hyphen || b == underscore

/-- The label bytes in lower case. -/
def lower (l : Bytes) : Bytes := l.map toAsciiLowercase

@[simp] theorem lower_length (l : Bytes) : (lower l).length = l.length := by simp [lower]

theorem toAsciiLowercase_idem (b : UInt8) :
    toAsciiLowercase (toAsciiLowercase b) = toAsciiLowercase b :=
  forall_byte (by decide) b

@[simp] theorem lower_lower (l : Bytes) : lower (lower l) = lower l := by
  simp [lower, toAsciiLowercase_idem]

theorem labelByte_toAsciiLowercase (b : UInt8) :
    labelByte (toAsciiLowercase b) = labelByte b :=
  forall_byte (by decide) b

theorem toAsciiLowercase_eq_hyphen (b : UInt8) : toAsciiLowercase b = hyphen ↔ b = hyphen :=
  forall_byte (by decide) b

/-- A label byte is ASCII: its one-byte character encodes back to it. -/
theorem utf8EncodeChar_of_labelByte (b : UInt8) :
    labelByte b = true → String.utf8EncodeChar (Char.ofUInt8 b) = [b] :=
  forall_byte (by decide) b

theorem toLower_ofUInt8 (b : UInt8) :
    labelByte b = true → (Char.ofUInt8 b).toLower = Char.ofUInt8 (toAsciiLowercase b) :=
  forall_byte (by decide) b

theorem ofUInt8_ne_dot (b : UInt8) : labelByte b = true → Char.ofUInt8 b ≠ '.' :=
  forall_byte (by decide) b

/-- Only ASCII characters encode to label bytes. -/
theorem ofUInt8_of_utf8EncodeChar {c : Char}
    (h : ∀ b ∈ String.utf8EncodeChar c, labelByte b = true) :
    ∃ b, labelByte b = true ∧ c = Char.ofUInt8 b := by
  have high (b : UInt8) : 128 ≤ b.toNat → labelByte b = false := forall_byte (by decide) b
  rw [String.utf8EncodeChar] at h
  split_ifs at h with h1 h2 h3
  · refine ⟨UInt8.ofNat c.val.toNat, h _ (by simp), ?_⟩
    apply Char.ext
    apply UInt32.toNat_inj.mp
    show c.val.toNat = (UInt8.ofNat c.val.toNat).toUInt32.toNat
    rw [UInt8.toNat_toUInt32, UInt8.toNat_ofNat']
    omega
  -- A longer encoding starts with a byte of at least 0xC0, which no label holds.
  all_goals
    have hb := h _ List.mem_cons_self
    rw [high _ (by rw [UInt8.toNat_ofNat']; omega)] at hb
    exact absurd hb (by simp)

/-! ### Labels -/

/-- Maximum length of a label (RFC 1035). -/
def MAX_LABEL_LEN : Nat := 63

/-- Maximum wire length of a name, length bytes and terminator included. -/
def MAX_NAME_WIRE_LEN : Nat := 255

/-- Maximum number of compression pointers `skipRr` follows. -/
def MAX_SKIP_HOPS : Nat := 16

/-- `Name::validate_label`. -/
def validateLabel (label : Bytes) : Except Error Unit :=
  if label.head? = some hyphen ∨ label.getLast? = some hyphen then
    .error (.invalidLabelByte hyphen)
  else
    match label.find? (fun b => !labelByte b) with
    | some b => .error (.invalidLabelByte b)
    | none => .ok ()

/-- A label both constructors accept: 1 to 63 letters, digits, hyphens and
underscores, with no hyphen at either end. -/
structure RawLabel (l : Bytes) : Prop where
  ne_nil : l ≠ []
  length_le : l.length ≤ MAX_LABEL_LEN
  labelByte_of_mem : ∀ b ∈ l, labelByte b = true
  head_ne : l.head? ≠ some hyphen
  last_ne : l.getLast? ≠ some hyphen

theorem validateLabel_ok_iff {l : Bytes} : validateLabel l = .ok () ↔
    (∀ b ∈ l, labelByte b = true) ∧ l.head? ≠ some hyphen ∧ l.getLast? ≠ some hyphen := by
  rw [validateLabel]
  split_ifs with h
  · constructor
    · intro h'
      exact absurd h' (by simp)
    · rintro ⟨_, h1, h2⟩
      exact absurd h (by tauto)
  · cases hf : l.find? (fun b => !labelByte b) with
    | none =>
      simp only [List.find?_eq_none, Bool.not_eq_true', Bool.not_eq_false] at hf
      simpa using ⟨hf, by tauto⟩
    | some b =>
      have hmem := List.mem_of_find?_eq_some hf
      have hb := List.find?_some hf
      constructor
      · intro h'
        exact absurd h' (by simp)
      · rintro ⟨hall, _⟩
        rw [hall b hmem] at hb
        exact absurd hb (by simp)

theorem rawLabel_iff {l : Bytes} :
    RawLabel l ↔ l ≠ [] ∧ l.length ≤ MAX_LABEL_LEN ∧ validateLabel l = .ok () := by
  rw [validateLabel_ok_iff]
  exact ⟨fun h => ⟨h.1, h.2, h.3, h.4, h.5⟩, fun ⟨h1, h2, h3, h4, h5⟩ => ⟨h1, h2, h3, h4, h5⟩⟩

theorem RawLabel.lower {l : Bytes} (h : RawLabel l) : RawLabel (lower l) where
  ne_nil := by simpa [Codec.lower] using h.ne_nil
  length_le := by simpa using h.length_le
  labelByte_of_mem := by
    intro b hb
    obtain ⟨a, ha, rfl⟩ := List.mem_map.mp hb
    rw [labelByte_toAsciiLowercase]
    exact h.labelByte_of_mem a ha
  head_ne := by
    have := h.head_ne
    cases l with
    | nil => simp [Codec.lower]
    | cons a l => simpa [Codec.lower, toAsciiLowercase_eq_hyphen] using this
  last_ne := by
    have := h.last_ne
    rw [Codec.lower, List.getLast?_map]
    cases hl : l.getLast? with
    | none => simp
    | some a =>
      rw [hl] at this
      simpa [toAsciiLowercase_eq_hyphen] using this

theorem RawLabel.dot_not_mem {l : Bytes} (h : RawLabel l) : '.' ∉ asChars l := by
  rintro hmem
  obtain ⟨b, hb, hdot⟩ := List.mem_map.mp hmem
  exact ofUInt8_ne_dot b (h.labelByte_of_mem b hb) hdot

theorem asBytes_asChars : ∀ {l : Bytes}, (∀ b ∈ l, labelByte b = true) →
    asBytes (asChars l) = l := by
  intro l
  induction l with
  | nil =>
    intro _
    rfl
  | cons b l ih =>
    intro h
    have hb := utf8EncodeChar_of_labelByte b (h b (by simp))
    have hl := ih (fun b' hb' => h b' (by simp [hb']))
    simp only [asBytes, asChars, List.map_cons, List.flatMap_cons, hb] at hl ⊢
    rw [hl]
    rfl

theorem asChars_asBytes : ∀ {cs : List Char}, (∀ b ∈ asBytes cs, labelByte b = true) →
    asChars (asBytes cs) = cs := by
  intro cs
  induction cs with
  | nil =>
    intro _
    rfl
  | cons c cs ih =>
    intro h
    have hc : ∀ b ∈ String.utf8EncodeChar c, labelByte b = true :=
      fun b hb => h b (by simp [asBytes, hb])
    have hcs : ∀ b ∈ asBytes cs, labelByte b = true := by
      intro b hb
      refine h b ?_
      simp only [asBytes, List.flatMap_cons, List.mem_append] at hb ⊢
      exact Or.inr hb
    obtain ⟨b, hb, rfl⟩ := ofUInt8_of_utf8EncodeChar hc
    have henc := utf8EncodeChar_of_labelByte b hb
    have htl := ih hcs
    simp only [asChars, asBytes, List.flatMap_cons, henc, List.map_append, List.map_cons,
      List.map_nil] at htl ⊢
    rw [htl]
    rfl

/-- Lowercasing the characters of a label lowercases its bytes. -/
theorem map_toLower_asChars {l : Bytes} (h : ∀ b ∈ l, labelByte b = true) :
    (asChars l).map Char.toLower = asChars (lower l) := by
  simp only [asChars, lower, List.map_map]
  apply List.map_congr_left
  intro b hb
  exact toLower_ofUInt8 b (h b hb)

/-! ### Names -/

/-- The wire length of a name with labels `ls`, terminator included. -/
def wireLen (ls : List Bytes) : Nat := 1 + prefixedLength ls

/-- The canonical text of a list of labels: every label followed by a dot, and
a lone dot for the root. -/
def canonText (ls : List Bytes) : List Char :=
  if ls = [] then ['.'] else terminated '.' (ls.map asChars)

/-- The labels of a name as a client may spell them: valid, and short enough. -/
structure RawLabels (ls : List Bytes) : Prop where
  raw : ∀ l ∈ ls, RawLabel l
  wireLen_le : wireLen ls ≤ MAX_NAME_WIRE_LEN

/-- The labels of a normalized name: raw labels in lower case. -/
structure CanonLabels (ls : List Bytes) : Prop extends RawLabels ls where
  lower_eq : ∀ l ∈ ls, lower l = l

theorem prefixedLength_map_lower (ls : List Bytes) :
    prefixedLength (ls.map lower) = prefixedLength ls := by
  simp [prefixedLength, Function.comp_def]

theorem RawLabels.canon {ls : List Bytes} (h : RawLabels ls) : CanonLabels (ls.map lower) where
  raw := by
    intro l hl
    obtain ⟨l', hl', rfl⟩ := List.mem_map.mp hl
    exact (h.raw l' hl').lower
  wireLen_le := by
    rw [wireLen, prefixedLength_map_lower]
    exact h.wireLen_le
  lower_eq := by
    intro l hl
    obtain ⟨l', _, rfl⟩ := List.mem_map.mp hl
    exact lower_lower l'

/-- `Name`: the normalized text, with the proof that it is canonical. -/
structure Name where
  inner : String
  canon : ∃ ls, CanonLabels ls ∧ inner.toList = canonText ls
  deriving DecidableEq

namespace Name

/-- `Name::from_normalized`: the caller shows that the text is canonical. -/
def fromNormalized (cs : List Char) (h : ∃ ls, CanonLabels ls ∧ cs = canonText ls) : Name :=
  ⟨String.ofList cs, by simpa using h⟩

@[simp] theorem fromNormalized_toList (cs : List Char)
    (h : ∃ ls, CanonLabels ls ∧ cs = canonText ls) :
    (fromNormalized cs h).inner.toList = cs := by
  simp [fromNormalized]

theorem ext_toList {n n' : Name} (h : n.inner.toList = n'.inner.toList) : n = n' := by
  obtain ⟨s, hs⟩ := n
  obtain ⟨s', hs'⟩ := n'
  rw [String.toList_inj] at h
  cases h
  rfl

/-- `Display for Name`. -/
def display (n : Name) : String := n.inner

/-! ### The text constructor -/

/-- The loop of `Name::from_str` over the pieces between dots. -/
def fromStrLoop : List (List Char) → List Char → Nat → Except Error (List Char)
  | [], normalized, _ => .ok normalized
  | label :: rest, normalized, wireLen =>
    if label.isEmpty then .error .emptyLabel
    else
      let labelLen := (asBytes label).length
      if labelLen > MAX_LABEL_LEN then .error (.labelTooLong labelLen)
      else
        match validateLabel (asBytes label) with
        | .error e => .error e
        | .ok () =>
          let wireLen := wireLen + (1 + labelLen)
          if wireLen > MAX_NAME_WIRE_LEN then .error (.nameTooLong wireLen)
          else fromStrLoop rest (normalized ++ label.map Char.toLower ++ ['.']) wireLen

/-- `str::strip_suffix('.')`, or the text itself. -/
def stripDot (cs : List Char) : List Char :=
  if cs.getLast? = some '.' then cs.dropLast else cs

/-- The normalized text `Name::from_str` computes. -/
def fromStrText (s : String) : Except Error (List Char) :=
  if s = "." ∨ s = "" then .ok ['.']
  else fromStrLoop ((stripDot s.toList).splitOn '.') [] 1

/-- The text loop accepts exactly lists of valid labels that fit. -/
theorem fromStrLoop_ok_iff : ∀ {pieces : List (List Char)} {acc out : List Char} {wl : Nat},
    wl ≤ MAX_NAME_WIRE_LEN →
    (fromStrLoop pieces acc wl = .ok out ↔
      ∃ ls : List Bytes, pieces = ls.map asChars ∧ (∀ l ∈ ls, RawLabel l) ∧
        wl + prefixedLength ls ≤ MAX_NAME_WIRE_LEN ∧
        out = acc ++ terminated '.' ((ls.map lower).map asChars)) := by
  intro pieces
  induction pieces with
  | nil =>
    intro acc out wl hwl
    simp only [fromStrLoop, Except.ok.injEq]
    constructor
    · rintro rfl
      exact ⟨[], rfl, by simp, by simpa using hwl, by simp⟩
    · rintro ⟨ls, hls, _, _, rfl⟩
      obtain rfl : ls = [] := by simpa using hls.symm
      simp
  | cons label rest ih =>
    intro acc out wl hwl
    constructor
    · intro h
      cases hval : validateLabel (asBytes label) with
      | error e =>
        simp only [fromStrLoop, hval] at h
        split_ifs at h
      | ok u =>
        simp only [fromStrLoop, hval] at h
        split_ifs at h with hempty hlong hwire
        obtain ⟨ls, hrest, hraw, hle, rfl⟩ := (ih (by omega)).mp h
        have hbytes := (validateLabel_ok_iff.mp hval).1
        have hlabel : asChars (asBytes label) = label := asChars_asBytes hbytes
        have hne : asBytes label ≠ [] := by
          intro hnil
          rw [hnil] at hlabel
          exact hempty (by simp [← hlabel, asChars])
        refine ⟨asBytes label :: ls, by simp [hlabel, hrest], ?_, ?_, ?_⟩
        · intro l hl
          rcases List.mem_cons.mp hl with rfl | hl
          · exact rawLabel_iff.mpr ⟨hne, by omega, hval⟩
          · exact hraw l hl
        · simp only [prefixedLength_cons]
          omega
        · simp only [List.map_cons, terminated_cons]
          rw [← map_toLower_asChars hbytes, hlabel]
          simp
    · rintro ⟨ls, hpieces, hraw, hle, rfl⟩
      obtain ⟨l, ls, rfl, rfl, rfl⟩ := List.map_eq_cons_iff.mp hpieces.symm
      have hl : RawLabel l := hraw l (by simp)
      simp only [prefixedLength_cons] at hle
      have hbytes : asBytes (asChars l) = l := asBytes_asChars hl.labelByte_of_mem
      have hlen := hl.length_le
      have hne := hl.ne_nil
      simp only [fromStrLoop, hbytes, (rawLabel_iff.mp hl).2.2]
      rw [if_neg (by simpa [asChars] using hne), if_neg (by omega), if_neg (by omega)]
      refine (ih (by omega)).mpr ⟨ls, rfl, fun l' hl' => hraw l' (by simp [hl']), by omega, ?_⟩
      rw [map_toLower_asChars hl.labelByte_of_mem]
      simp

theorem canonText_of_ne_nil {ls : List Bytes} (h : ls ≠ []) :
    canonText ls = terminated '.' (ls.map asChars) := if_neg h

theorem fromStrText_canon {s : String} {cs : List Char} (h : fromStrText s = .ok cs) :
    ∃ ls, CanonLabels ls ∧ cs = canonText ls := by
  rw [fromStrText] at h
  split_ifs at h with hroot
  · simp only [Except.ok.injEq] at h
    exact ⟨[], ⟨⟨by simp, by simp [wireLen, MAX_NAME_WIRE_LEN]⟩, by simp⟩, h.symm⟩
  · obtain ⟨ls, hls, hraw, hle, rfl⟩ := (fromStrLoop_ok_iff (by simp [MAX_NAME_WIRE_LEN])).mp h
    have hne : ls.map lower ≠ [] := by
      intro hnil
      obtain rfl : ls = [] := by simpa using hnil
      exact List.splitOn_ne_nil _ _ hls
    exact ⟨ls.map lower, RawLabels.canon ⟨hraw, hle⟩, by simp [canonText_of_ne_nil hne]⟩

/-- `FromStr for Name`. -/
def fromStr (s : String) : Except Error Name :=
  match h : fromStrText s with
  | .ok cs => .ok (fromNormalized cs (fromStrText_canon h))
  | .error e => .error e

theorem fromStr_ok_iff {s : String} {n : Name} :
    fromStr s = .ok n ↔ fromStrText s = .ok n.inner.toList := by
  constructor
  · intro h
    rw [fromStr] at h
    split at h
    · rename_i cs hcs
      simp only [Except.ok.injEq] at h
      rw [hcs, ← h, fromNormalized_toList]
    · exact absurd h (by simp)
  · intro h
    rw [fromStr]
    split
    · rename_i cs hcs
      rw [hcs, Except.ok.injEq] at h
      rw [Except.ok.injEq]
      apply ext_toList
      rw [fromNormalized_toList, h]
    · rename_i e he
      rw [he] at h
      exact absurd h (by simp)

/-- `s` spells the labels `ls`, with or without the trailing dot. -/
def Spells (s : String) (ls : List Bytes) : Prop :=
  if ls = [] then s = "." ∨ s = ""
  else s.toList = terminated '.' (ls.map asChars) ∨
    s.toList ++ ['.'] = terminated '.' (ls.map asChars)

/-- Labels of valid names hold no dot, so a flattening splits back into them. -/
theorem splitOn_of_terminated {cs : List Char} {ls : List Bytes} (hraw : ∀ l ∈ ls, RawLabel l)
    (h : cs ++ ['.'] = terminated '.' (ls.map asChars)) : cs.splitOn '.' = ls.map asChars := by
  refine terminated_injective (fun l hl => not_mem_of_mem_splitOn hl) ?_ ?_
  · intro l hl
    obtain ⟨l', hl', rfl⟩ := List.mem_map.mp hl
    exact (hraw l' hl').dot_not_mem
  · rw [terminated_splitOn, h]

theorem nil_not_mem_asChars {ls : List Bytes} (hraw : ∀ l ∈ ls, RawLabel l) :
    [] ∉ ls.map asChars := by
  intro hmem
  obtain ⟨l, hl, hnil⟩ := List.mem_map.mp hmem
  exact (hraw l hl).ne_nil (by simpa [asChars] using hnil)

/-- `stripDot` undoes the trailing dot of a spelling and nothing else. -/
theorem splitOn_stripDot {s : String} {ls : List Bytes} (hls : ls ≠ [])
    (hraw : ∀ l ∈ ls, RawLabel l) (h : Spells s ls) :
    (stripDot s.toList).splitOn '.' = ls.map asChars := by
  rw [Spells, if_neg hls] at h
  rcases h with h | h
  · obtain ⟨l, ls', rfl⟩ := List.exists_cons_of_ne_nil hls
    obtain ⟨pre, hpre⟩ := terminated_eq_concat '.' (ls'.map asChars) (asChars l)
    rw [List.map_cons, hpre] at h
    rw [stripDot, h, if_pos (by simp), List.dropLast_concat]
    exact splitOn_of_terminated hraw (by rw [List.map_cons, hpre])
  · have hsplit := splitOn_of_terminated hraw h
    rw [stripDot, if_neg ?_, hsplit]
    -- A second trailing dot would leave an empty label.
    intro hlast
    obtain ⟨pre, hpre⟩ := List.getLast?_eq_some_iff.mp hlast
    rw [hpre, ← terminated_splitOn, splitOn_terminated (fun l hl => not_mem_of_mem_splitOn hl)]
      at hsplit
    exact nil_not_mem_asChars hraw (hsplit ▸ by simp)

theorem spells_stripDot {s : String} {ls : List Bytes}
    (h : (stripDot s.toList).splitOn '.' = ls.map asChars) (hls : ls ≠ []) : Spells s ls := by
  rw [Spells, if_neg hls, ← h, terminated_splitOn, stripDot]
  split_ifs with hlast
  · obtain ⟨pre, hpre⟩ := List.getLast?_eq_some_iff.mp hlast
    left
    rw [hpre, List.dropLast_concat]
  · right
    rfl

/-- **`Name::from_str`, exactly**: it accepts the spellings of valid labels
that fit in 255 wire bytes, and returns them lowercased. -/
theorem fromStr_ok_iff_spells {s : String} {n : Name} : fromStr s = .ok n ↔
    ∃ ls, RawLabels ls ∧ Spells s ls ∧ n.inner.toList = canonText (ls.map lower) := by
  rw [fromStr_ok_iff, fromStrText]
  have hwl : 1 ≤ MAX_NAME_WIRE_LEN := by simp [MAX_NAME_WIRE_LEN]
  by_cases hroot : s = "." ∨ s = ""
  · rw [if_pos hroot, Except.ok.injEq]
    constructor
    · intro h
      exact ⟨[], ⟨by simp, by simp [wireLen, MAX_NAME_WIRE_LEN]⟩, by simpa [Spells] using hroot,
        by simp [canonText, ← h]⟩
    · rintro ⟨ls, hls, hsp, hn⟩
      by_cases hnil : ls = []
      · rw [hn, hnil]
        rfl
      · have hsplit := splitOn_stripDot hnil hls.raw hsp
        have hmem : [] ∈ (stripDot s.toList).splitOn '.' := by
          rcases hroot with rfl | rfl <;> decide
        exact absurd (hsplit ▸ hmem) (nil_not_mem_asChars hls.raw)
  · rw [if_neg hroot, fromStrLoop_ok_iff hwl]
    constructor
    · rintro ⟨ls, hls, hraw, hle, hout⟩
      have hne : ls ≠ [] := by
        rintro rfl
        exact List.splitOn_ne_nil _ _ hls
      refine ⟨ls, ⟨hraw, hle⟩, spells_stripDot hls hne, ?_⟩
      rw [canonText_of_ne_nil (by simpa using hne), hout, List.nil_append]
    · rintro ⟨ls, hls, hsp, hn⟩
      by_cases hnil : ls = []
      · rw [Spells, if_pos hnil] at hsp
        exact absurd hsp hroot
      · refine ⟨ls, splitOn_stripDot hnil hls.raw hsp, hls.raw, hls.wireLen_le, ?_⟩
        rw [hn, canonText_of_ne_nil (by simpa using hnil), List.nil_append]

/-! ### The wire constructor -/

/-- The length byte of a label of `n` bytes. -/
def lenByte (n : Nat) : UInt8 := UInt8.ofNat n

/-- The wire form of a list of labels: length-prefixed, zero-terminated. -/
def wire (ls : List Bytes) : Bytes := lengthPrefixed lenByte ls ++ [0]

@[simp] theorem wire_nil : wire [] = [0] := rfl

@[simp] theorem wire_cons (l : Bytes) (ls : List Bytes) :
    wire (l :: ls) = lenByte l.length :: (l ++ wire ls) := by
  simp [wire]

@[simp] theorem wire_length (ls : List Bytes) : (wire ls).length = wireLen ls := by
  simp [wire, wireLen, Nat.add_comm]

/-- The loop of `Name::read_question`. -/
def readLoop : Nat → List Char → Nat → ReadM (List Char)
  | 0, _, wireLen => throw (.nameTooLong wireLen)
  | fuel + 1, normalized, wireLen => do
    let len ← Reader.readU8
    if len &&& 0xC0 = 0xC0 then throw .compressionPointerInQuestion
    else
      let labelLen := len.toNat
      if labelLen = 0 then pure normalized
      else if labelLen > MAX_LABEL_LEN then throw (.labelTooLong labelLen)
      else
        let wireLen := wireLen + (1 + labelLen)
        if wireLen > MAX_NAME_WIRE_LEN then throw (.nameTooLong wireLen)
        else do
          let labelBytes ← Reader.readSlice labelLen
          match validateLabel labelBytes with
          | .error e => throw e
          | .ok () =>
            readLoop fuel (normalized ++ asChars (lower labelBytes) ++ ['.']) wireLen

/-- Rounds enough for every name: each label adds at least two bytes to the
wire length, which may not exceed 255. -/
def readFuel : Nat := MAX_NAME_WIRE_LEN

/-- The normalized text `Name::read_question` computes. -/
def readText : ReadM (List Char) := do
  let normalized ← readLoop readFuel [] 1
  if normalized = [] then pure ['.'] else pure normalized

theorem lenByte_toNat {n : Nat} (h : n ≤ MAX_LABEL_LEN) : (lenByte n).toNat = n := by
  rw [MAX_LABEL_LEN] at h
  rw [lenByte, UInt8.toNat_ofNat']
  omega

theorem lenByte_of_toNat (b : UInt8) : lenByte b.toNat = b := by
  rw [lenByte, UInt8.ofNat_toNat]

/-- A length byte of a label is no compression pointer. -/
theorem not_pointer_of_le (b : UInt8) : b.toNat ≤ 63 → ¬ (b &&& 0xC0 = 0xC0) :=
  forall_byte (by decide) b

/-- One label of the wire form, and the rest of it. -/
theorem wire_cons_prefix_iff {b : UInt8} {l : Bytes} {ls : List Bytes} {xs : Bytes}
    (hb : lenByte l.length = b) :
    wire (l :: ls) <+: xs ↔ [b] <+: xs ∧ l <+: xs.drop 1 ∧ wire ls <+: xs.drop (1 + l.length) := by
  rw [wire_cons, hb]
  cases xs with
  | nil => simp
  | cons x xs =>
    simp only [List.cons_prefix_cons, List.nil_prefix, and_true, List.drop_succ_cons,
      List.drop_zero, Nat.add_comm 1 l.length]
    refine and_congr_right fun _ => ?_
    constructor
    · rintro ⟨t, rfl⟩
      exact ⟨⟨wire ls ++ t, by simp⟩, ⟨t, by simp⟩⟩
    · rintro ⟨⟨t, rfl⟩, ht⟩
      rw [List.drop_left] at ht
      exact List.prefix_append_right_inj l |>.mpr ht

/-- The wire loop accepts exactly the wire forms of lists of valid labels that
fit, and stops right after the terminator. -/
theorem readLoop_ok_iff : ∀ {fuel wl : Nat} {acc out : List Char} {r r' : Reader},
    wl ≤ MAX_NAME_WIRE_LEN → MAX_NAME_WIRE_LEN < wl + fuel →
    (readLoop fuel acc wl r = .ok out r' ↔
      ∃ ls : List Bytes, (∀ l ∈ ls, RawLabel l) ∧ wl + prefixedLength ls ≤ MAX_NAME_WIRE_LEN ∧
        wire ls <+: r.buf.drop r.pos ∧ out = acc ++ terminated '.' ((ls.map lower).map asChars) ∧
        r' = r.advance (wireLen ls)) := by
  intro fuel
  induction fuel with
  | zero =>
    intro wl acc out r r' hwl hfuel
    omega
  | succ fuel ih =>
    intro wl acc out r r' hwl hfuel
    simp only [readLoop, bind_ok_iff, Reader.readU8_ok_iff]
    constructor
    · rintro ⟨b, _, ⟨rfl, hb⟩, h⟩
      split_ifs at h with hptr hzero hlong hwire
      · exact absurd h (by simp)
      · rw [pure_ok_iff] at h
        obtain ⟨rfl, rfl⟩ := h
        obtain rfl : b = 0 := UInt8.toNat_inj.mp hzero
        exact ⟨[], by simp, by simpa using hwl, hb, by simp, by simp [wireLen]⟩
      · exact absurd h (by simp)
      · exact absurd h (by simp)
      · obtain ⟨label, _, hslice, h⟩ := bind_ok_iff.mp h
        obtain ⟨rfl, _, hlen, hlabel⟩ := Reader.readSlice_ok_iff.mp hslice
        cases hval : validateLabel label with
        | error e =>
          simp only [hval] at h
          exact absurd h (by simp)
        | ok u =>
          simp only [hval] at h
          obtain ⟨ls, hraw, hle, hpre, rfl, rfl⟩ := (ih (by omega) (by omega)).mp h
          have hl : RawLabel label :=
            rawLabel_iff.mpr ⟨by intro hnil; simp [hnil] at hlen; omega, by omega, hval⟩
          refine ⟨label :: ls, ?_, by simp; omega, ?_, by simp, ?_⟩
          · intro l hl'
            rcases List.mem_cons.mp hl' with rfl | hl'
            · exact hl
            · exact hraw l hl'
          · rw [wire_cons_prefix_iff (b := b) (by rw [hlen, lenByte_of_toNat])]
            simp only [Reader.advance_advance, Reader.advance_buf, Reader.advance_pos,
              ← List.drop_drop, ← hlen] at hlabel hpre
            refine ⟨hb, hlabel, ?_⟩
            rwa [← List.drop_drop]
          · simp only [Reader.advance_advance, wireLen, prefixedLength_cons, hlen]
            congr 1
            omega
    · rintro ⟨ls, hraw, hle, hpre, rfl, rfl⟩
      cases ls with
      | nil => exact ⟨0, _, ⟨rfl, hpre⟩, by simp [wireLen]⟩
      | cons l ls =>
        have hl : RawLabel l := hraw l (by simp)
        have hlen := hl.length_le
        have hne : l.length ≠ 0 := fun h => hl.ne_nil (List.length_eq_zero_iff.mp h)
        obtain ⟨hb, hlabel, hrest⟩ := (wire_cons_prefix_iff rfl).mp hpre
        simp only [prefixedLength_cons] at hle
        rw [← List.drop_drop] at hrest
        refine ⟨lenByte l.length, _, ⟨rfl, hb⟩, ?_⟩
        have hnat := lenByte_toNat hlen
        rw [if_neg (not_pointer_of_le _ (by rw [hnat]; exact hlen))]
        simp only [hnat, hne, if_false, Nat.not_lt.mpr hlen]
        rw [if_neg (by omega), bind_ok_iff]
        refine ⟨l, _, Reader.readSlice_ok_iff.mpr ⟨rfl, ?_, rfl, ?_⟩, ?_⟩
        · have := hpre.length_le
          simp only [wire_length, wireLen, prefixedLength_cons, List.length_drop] at this
          simp only [Reader.advance_pos, Reader.advance_buf]
          omega
        · simpa [List.drop_drop] using hlabel
        · simp only [(rawLabel_iff.mp hl).2.2]
          refine (ih (by omega) (by omega)).mpr
            ⟨ls, fun l' hl' => hraw l' (by simp [hl']), by omega, ?_, by simp, ?_⟩
          · simpa [List.drop_drop, Nat.add_assoc] using hrest
          · simp only [Reader.advance_advance, wireLen, prefixedLength_cons]
            congr 1
            omega

/-- `readText` starts the loop with an empty buffer. -/
theorem readText_ok_iff {r r' : Reader} {out : List Char} : readText r = .ok out r' ↔
    ∃ ls, RawLabels ls ∧ wire ls <+: r.buf.drop r.pos ∧ out = canonText (ls.map lower) ∧
      r' = r.advance (wireLen ls) := by
  have hloop : ∀ {cs : List Char} {r₁ : Reader}, readLoop readFuel [] 1 r = .ok cs r₁ ↔ _ :=
    readLoop_ok_iff (by simp [MAX_NAME_WIRE_LEN]) (by simp [readFuel])
  have htext : ∀ ls : List Bytes,
      (if terminated '.' ((ls.map lower).map asChars) = [] then ['.']
        else terminated '.' ((ls.map lower).map asChars)) = canonText (ls.map lower) := by
    intro ls
    cases ls with
    | nil => rfl
    | cons l ls => simp [canonText]
  rw [readText, bind_ok_iff]
  constructor
  · rintro ⟨cs, r₁, hcs, hout⟩
    obtain ⟨ls, hraw, hle, hpre, rfl, rfl⟩ := hloop.mp hcs
    rw [← apply_ite pure, List.nil_append, htext, pure_ok_iff] at hout
    exact ⟨ls, ⟨hraw, hle⟩, hpre, hout.1.symm, hout.2.symm⟩
  · rintro ⟨ls, hls, hpre, rfl, rfl⟩
    refine ⟨_, _, hloop.mpr ⟨ls, hls.raw, hls.wireLen_le, hpre, rfl, rfl⟩, ?_⟩
    rw [← apply_ite pure, List.nil_append, htext, pure_ok_iff]
    exact ⟨rfl, rfl⟩

theorem readText_canon {r r' : Reader} {cs : List Char} (h : readText r = .ok cs r') :
    ∃ ls, CanonLabels ls ∧ cs = canonText ls := by
  obtain ⟨ls, hls, _, hcs, _⟩ := readText_ok_iff.mp h
  exact ⟨ls.map lower, hls.canon, hcs⟩

/-- `Name::read_question`. -/
def readQuestion : ReadM Name := fun r =>
  match h : readText r with
  | .ok cs r' => .ok (fromNormalized cs (readText_canon h)) r'
  | .error e r' => .error e r'

/-- **`Name::read_question`, exactly**: it accepts the wire forms of valid
labels that fit in 255 bytes, returns them lowercased and stops right after the
terminator. -/
theorem readQuestion_ok_iff {r r' : Reader} {n : Name} : readQuestion r = .ok n r' ↔
    ∃ ls, RawLabels ls ∧ wire ls <+: r.buf.drop r.pos ∧
      n.inner.toList = canonText (ls.map lower) ∧ r' = r.advance (wireLen ls) := by
  rw [← readText_ok_iff, readQuestion]
  constructor
  · intro h
    split at h
    · rename_i cs r₁ hcs
      simp only [EStateM.Result.ok.injEq] at h
      rw [hcs, ← h.1, ← h.2, fromNormalized_toList]
    · exact absurd h (by simp)
  · intro h
    split
    · rename_i cs r₁ hcs
      rw [hcs, EStateM.Result.ok.injEq] at h
      rw [EStateM.Result.ok.injEq]
      refine ⟨ext_toList ?_, h.2⟩
      rw [fromNormalized_toList, h.1]
    · rename_i e r₁ he
      rw [he] at h
      exact absurd h (by simp)

/-! ### The labels of a name, and the writer -/

/-- The non-empty pieces of the text between dots. -/
def pieces (n : Name) : List (List Char) :=
  (n.inner.toList.splitOn '.').filter (fun l => !l.isEmpty)

/-- The labels of the name, as bytes. -/
def labels (n : Name) : List Bytes := n.pieces.map asBytes

theorem pieces_eq {n : Name} {ls : List Bytes} (hraw : ∀ l ∈ ls, RawLabel l)
    (h : n.inner.toList = canonText ls) : n.pieces = ls.map asChars := by
  rw [pieces, h, canonText]
  split_ifs with hls
  · subst hls
    decide
  · have hdot : ∀ l ∈ ls.map asChars, '.' ∉ l := by
      intro l hl
      obtain ⟨l', hl', rfl⟩ := List.mem_map.mp hl
      exact (hraw l' hl').dot_not_mem
    have hkeep : ∀ l ∈ ls.map asChars, (!l.isEmpty) = true := by
      intro l hl
      have hne : l ≠ [] := fun hnil => nil_not_mem_asChars hraw (hnil ▸ hl)
      simpa using hne
    rw [splitOn_terminated hdot, List.filter_append, List.filter_eq_self.mpr hkeep]
    simp

theorem labels_eq {n : Name} {ls : List Bytes} (hraw : ∀ l ∈ ls, RawLabel l)
    (h : n.inner.toList = canonText ls) : n.labels = ls := by
  rw [labels, pieces_eq hraw h, List.map_map]
  conv_rhs => rw [← List.map_id ls]
  apply List.map_congr_left
  intro l hl
  exact asBytes_asChars (hraw l hl).labelByte_of_mem

theorem labels_canon (n : Name) : CanonLabels n.labels := by
  obtain ⟨ls, hls, htext⟩ := n.canon
  rwa [labels_eq hls.raw htext]

theorem toList_eq (n : Name) : n.inner.toList = canonText n.labels := by
  obtain ⟨ls, hls, htext⟩ := n.canon
  rwa [labels_eq hls.raw htext]

/-- `Name::write`. -/
def write (n : Name) (writer : Writer) : Writer :=
  let writer := (n.inner.toList.splitOn '.').foldl
    (fun writer label =>
      if label.isEmpty then writer
      else (writer.writeU8 (UInt8.ofNat (asBytes label).length)).writeSlice (asBytes label))
    writer
  writer.writeU8 0

/-- The writer appends the wire form of the labels. -/
theorem write_eq (n : Name) (writer : Writer) : n.write writer = writer ++ wire n.labels := by
  have hfold : ∀ (ps : List (List Char)) (w : Writer),
      ps.foldl (fun w label =>
        if label.isEmpty then w
        else (Writer.writeU8 w (UInt8.ofNat (asBytes label).length)).writeSlice (asBytes label)) w
      = w ++ lengthPrefixed lenByte ((ps.filter (fun l => !l.isEmpty)).map asBytes) := by
    intro ps
    induction ps with
    | nil =>
      intro w
      simp
    | cons p ps ih =>
      intro w
      rw [List.foldl_cons, ih]
      cases hp : p.isEmpty with
      | true => simp [hp]
      | false => simp [hp, Writer.writeU8, Writer.writeSlice, lenByte]
  rw [write, hfold, wire, labels, pieces]
  simp [Writer.writeU8]

end Name

end Codec

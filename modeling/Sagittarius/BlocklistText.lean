/-
What the blocklist parsers read (`blocklist/parse.rs`).

The names of a text are described here without the parsers: by what stands in a line in
front of a comment, between white space, and which of its parts may be names.

* `preprocess_eq_some_iff` — the content of a line;
* `mem_parse_iff` — the names of a text are the valid ones among its candidates;
* `mem_parse_pieces` — a carriage return at the end of a line and empty lines do not
  matter, so that a text is parsed piece by piece;
* `blocklist_parsers_exact` — all of it, with the listing of names that is parsed back.
-/
import Sagittarius.BlocklistParse
import Sagittarius.Fields
import Sagittarius.IpText
import Sagittarius.NameRoundTrip

open Codec Delimited Fields

namespace Blocklist

/-! ### The content of a line -/

/-- The content of a line: what is in front of the first `#`, without white space around
it; there is some, and it does not start with `!`. -/
def Content (line content : List Char) : Prop :=
  content ≠ [] ∧ content.head? ≠ some '!' ∧
  (∀ c, content.head? = some c → Text.isWhitespace c = false) ∧
  (∀ c, content.getLast? = some c → Text.isWhitespace c = false) ∧
  ∃ left right comment, line = left ++ (content ++ right) ++ comment ∧
    '#' ∉ left ++ (content ++ right) ∧ (∀ c, comment.head? = some c → c = '#') ∧
    (∀ c ∈ left, Text.isWhitespace c = true) ∧ (∀ c ∈ right, Text.isWhitespace c = true)

/-- The part of a line in front of the first `#`. -/
theorem takeWhile_hash_eq_iff {line pre : List Char} : line.takeWhile (· ≠ '#') = pre ↔
    ∃ comment, line = pre ++ comment ∧ '#' ∉ pre ∧ ∀ c, comment.head? = some c → c = '#' := by
  constructor
  · rintro rfl
    refine ⟨line.dropWhile (· ≠ '#'), List.takeWhile_append_dropWhile.symm, ?_, ?_⟩
    · intro hmem
      have := List.mem_takeWhile_imp hmem
      simp at this
    · intro c hc
      have hnot := List.head?_dropWhile_not (fun c => decide (c ≠ '#')) line
      rw [hc] at hnot
      simpa using hnot
  · rintro ⟨comment, rfl, hpre, hcomment⟩
    rw [List.takeWhile_append_of_pos]
    · cases comment with
      | nil => simp
      | cons c comment =>
        obtain rfl := hcomment c rfl
        simp
    · intro c hc
      have hne : c ≠ '#' := fun h => hpre (h ▸ hc)
      simpa using hne

/-- `preprocess` finds the content of a line, if it has one. -/
theorem preprocess_eq_some_iff {line content : List Char} :
    preprocess line = some content ↔ Content line content := by
  rw [preprocess, Content]
  constructor
  · intro h
    split_ifs at h with hnil hbang
    rw [Option.some_inj] at h
    rw [h] at hnil hbang
    obtain ⟨left, right, hline, hleft, hright, hhead, hlast⟩ := (Text.trimBy_eq_iff hnil).mp h
    obtain ⟨comment, hcut, hhash, hcomment⟩ := takeWhile_hash_eq_iff.mp hline
    exact ⟨hnil, hbang, hhead, hlast, left, right, comment, hcut, hhash, hcomment, hleft, hright⟩
  · rintro ⟨hnil, hbang, hhead, hlast, left, right, comment, hcut, hhash, hcomment, hleft, hright⟩
    have hline := takeWhile_hash_eq_iff.mpr ⟨comment, hcut, hhash, hcomment⟩
    have htrim : Text.trimBy Text.isWhitespace (line.takeWhile (· ≠ '#')) = content :=
      (Text.trimBy_eq_iff hnil).mpr ⟨left, right, hline, hleft, hright, hhead, hlast⟩
    rw [htrim, if_neg hnil, if_neg hbang]

/-! ### The candidates of a line -/

theorem splitAsciiWhitespace_eq (text : List Char) :
    splitAsciiWhitespace text = fields isAsciiWhitespace text := by
  rw [splitAsciiWhitespace, fields]
  refine List.filter_congr ?_
  intro piece _
  cases piece <;> rfl

/-- What may be a name in a line: of a hosts line each field behind the first one, of a
domain list the whole content if there is no white space in it. -/
def Candidate (format : Storage.BlocklistFormat) (line field : List Char) : Prop :=
  match format with
  | .hosts => ∃ before after, Content line (before ++ (field ++ after)) ∧
      IsField isAsciiWhitespace before field after ∧ ∃ c ∈ before, isAsciiWhitespace c = false
  | .domainList => Content line field ∧ ∀ c ∈ field, Text.isWhitespace c = false

/-- The fields the parsers look at. -/
def candidates : Storage.BlocklistFormat → List Char → List (List Char)
  | .hosts => hostsFields
  | .domainList => domainListFields

theorem mem_candidates_iff {format : Storage.BlocklistFormat} {line field : List Char} :
    field ∈ candidates format line ↔ Candidate format line field := by
  cases format with
  | hosts =>
    show field ∈ hostsFields line ↔ _
    simp only [hostsFields, Candidate, ← preprocess_eq_some_iff]
    cases hcontent : preprocess line with
    | none => simp
    | some content =>
      simp only [splitAsciiWhitespace_eq, mem_tail_fields_iff, Option.some_inj]
  | domainList =>
    show field ∈ domainListFields line ↔ _
    simp only [domainListFields, Candidate, ← preprocess_eq_some_iff]
    cases hcontent : preprocess line with
    | none => simp
    | some content =>
      simp only [Option.some_inj]
      split_ifs with hspace
      · refine iff_of_false (by simp) ?_
        rintro ⟨rfl, hclean⟩
        obtain ⟨c, hc, hwhite⟩ := List.any_eq_true.mp hspace
        rw [hclean c hc] at hwhite
        cases hwhite
      · rw [List.mem_singleton]
        constructor
        · rintro rfl
          refine ⟨rfl, ?_⟩
          intro c hc
          by_contra hwhite
          exact hspace (List.any_eq_true.mpr ⟨c, hc, by simpa using hwhite⟩)
        · rintro ⟨rfl, -⟩
          rfl

theorem parse_eq (format : Storage.BlocklistFormat) (text : List Char) :
    format.parse text = parseLines (candidates format) text := by
  cases format <;> rfl

/-- **The names of a text** are the valid ones among the candidates of its lines. -/
theorem mem_parse_iff {format : Storage.BlocklistFormat} {text : List Char} {n : Name} :
    n ∈ format.parse text ↔ ∃ line ∈ lines text, ∃ field, Candidate format line field ∧
      Name.fromStr (String.ofList field) = .ok n := by
  simp only [parse_eq, mem_parseLines_iff, mem_candidates_iff]

/-! ### Piece by piece -/

theorem trimBy_concat {p : Char → Bool} {c : Char} (h : p c = true) (cs : List Char) :
    Text.trimBy p (cs ++ [c]) = Text.trimBy p cs := by
  rw [Text.trimBy, Text.trimBy, List.dropWhile_append]
  split_ifs with hempty
  · rw [List.isEmpty_iff.mp hempty, List.dropWhile_cons_of_pos h]
    rfl
  · rw [List.rdropWhile_concat_pos _ _ _ h]

/-- A carriage return at the end of a line is trimmed off, or in a comment. -/
theorem preprocess_stripCr (line : List Char) : preprocess (stripCr line) = preprocess line := by
  rw [stripCr]
  split_ifs with hlast
  · obtain ⟨pre, rfl⟩ : ∃ pre, line = pre ++ ['\r'] := by
      rw [List.getLast?_eq_some_iff] at hlast
      exact hlast
    have htrim : Text.trimBy Text.isWhitespace ((pre ++ ['\r']).takeWhile (· ≠ '#'))
        = Text.trimBy Text.isWhitespace (pre.takeWhile (· ≠ '#')) := by
      rw [List.takeWhile_append]
      split_ifs with hall
      · have hpre : pre.takeWhile (· ≠ '#') = pre :=
          (List.takeWhile_prefix _).eq_of_length hall
        rw [hpre]
        exact trimBy_concat (by decide) pre
      · rfl
    rw [List.dropLast_concat, preprocess, preprocess, htrim]
  · rfl

theorem candidates_stripCr (format : Storage.BlocklistFormat) (line : List Char) :
    candidates format (stripCr line) = candidates format line := by
  cases format with
  | hosts =>
    show hostsFields (stripCr line) = hostsFields line
    rw [hostsFields, hostsFields, preprocess_stripCr]
  | domainList =>
    show domainListFields (stripCr line) = domainListFields line
    rw [domainListFields, domainListFields, preprocess_stripCr]

theorem candidates_nil (format : Storage.BlocklistFormat) : candidates format [] = [] := by
  cases format <;> rfl

/-- **A text is parsed piece by piece** between line feeds. -/
theorem mem_parse_pieces {format : Storage.BlocklistFormat} {text : List Char} {n : Name} :
    n ∈ format.parse text ↔ ∃ piece ∈ text.splitOn '\n', ∃ field ∈ candidates format piece,
      Name.fromStr (String.ofList field) = .ok n := by
  rw [parse_eq, mem_parseLines_iff, lines]
  rcases List.eq_nil_or_concat' (text.splitOn '\n') with hnil | ⟨pieces, last, hpieces⟩
  · exact absurd hnil (List.splitOn_ne_nil _ _)
  · rw [hpieces, List.dropLast_concat, List.getLast?_concat]
    simp only [List.mem_append, or_and_right, exists_or]
    refine or_congr ?_ ?_
    · simp only [List.mem_map, exists_exists_and_eq_and, candidates_stripCr]
    · -- An empty last piece is no line, and has no candidates.
      by_cases hlast : last = []
      · subst hlast
        simp [candidates_nil]
      · simp [hlast]

/-- Two texts with a line feed between them. -/
theorem mem_parse_append {format : Storage.BlocklistFormat} {a b : List Char} {n : Name} :
    n ∈ format.parse (a ++ '\n' :: b) ↔ n ∈ format.parse a ∨ n ∈ format.parse b := by
  rw [mem_parse_pieces, mem_parse_pieces, mem_parse_pieces, List.splitOn_append_cons_self]
  simp only [List.mem_append, or_and_right, exists_or]

/-! ### Listing names -/

/-- What a name or an address is printed with: nothing a parser cuts at. -/
def Plain (c : Char) : Prop :=
  Text.isWhitespace c = false ∧ isAsciiWhitespace c = false ∧ c ≠ '#' ∧ c ≠ '!'

theorem plain_ofUInt8 (b : UInt8) : labelByte b = true → Plain (Char.ofUInt8 b) :=
  forall_byte (by unfold Plain; decide) b

theorem plain_of_addrChar {c : Char} (h : IpText.AddrChar c) : Plain c := by
  obtain ⟨d, hd, rfl⟩ | rfl | rfl := h
  · have hdigit : ∀ d < 16, Plain (Nat.digitChar d) := by
      unfold Plain
      decide
    exact hdigit d hd
  · exact ⟨rfl, rfl, by decide, by decide⟩
  · exact ⟨rfl, rfl, by decide, by decide⟩

/-- The line of a name: in a hosts file behind its sink address. -/
def listed (format : Storage.BlocklistFormat) (sink : Name → IpAddr) (n : Name) : List Char :=
  match format with
  | .hosts => (sink n).display.toList ++ ' ' :: n.display.toList
  | .domainList => n.display.toList

/-- Each name on its own line. -/
def listing (format : Storage.BlocklistFormat) (sink : Name → IpAddr) (names : List Name) :
    List Char :=
  terminated '\n' (names.map (listed format sink))

/-- Printed text: not empty, and plain throughout. -/
structure Printed (text : List Char) : Prop where
  ne_nil : text ≠ []
  plain : ∀ c ∈ text, Plain c

theorem printed_name (n : Name) : Printed n.display.toList := by
  have htext : n.display.toList = canonText n.labels := n.toList_eq
  have hdot : Plain '.' := ⟨rfl, rfl, by decide, by decide⟩
  rw [htext]
  by_cases hroot : n.labels = []
  · rw [canonText, if_pos hroot]
    exact ⟨List.cons_ne_nil _ _, List.forall_mem_singleton.mpr hdot⟩
  · rw [Name.canonText_of_ne_nil hroot]
    constructor
    · obtain ⟨l, ls, hlabels⟩ := List.exists_cons_of_ne_nil hroot
      rw [hlabels, List.map_cons, terminated_cons]
      exact List.append_ne_nil_of_right_ne_nil _ (List.cons_ne_nil _ _)
    · intro c hc
      obtain ⟨chars, hchars, hc⟩ := List.mem_flatMap.mp hc
      obtain ⟨l, hl, rfl⟩ := List.mem_map.mp hchars
      obtain hc | hc := List.mem_append.mp hc
      · obtain ⟨b, hb, rfl⟩ := List.mem_map.mp hc
        exact plain_ofUInt8 b ((n.labels_canon.raw l hl).labelByte_of_mem b hb)
      · obtain rfl := List.mem_singleton.mp hc
        exact hdot

theorem printed_address (ip : IpAddr) : Printed ip.display.toList :=
  ⟨ip.display_spec.1, fun c hc => plain_of_addrChar (ip.display_spec.2 c hc)⟩

/-- The content of a line without a comment, and without white space around it. -/
theorem preprocess_eq_self {line : List Char} (hne : line ≠ []) (hhash : '#' ∉ line)
    (hhead : ∀ c, line.head? = some c → Plain c) (hlast : ∀ c, line.getLast? = some c → Plain c) :
    preprocess line = some line := by
  refine preprocess_eq_some_iff.mpr ⟨hne, ?_, ?_, ?_, [], [], [], ?_⟩
  · intro hbang
    exact (hhead '!' hbang).2.2.2 rfl
  · intro c hc
    exact (hhead c hc).1
  · intro c hc
    exact (hlast c hc).1
  · simpa using hhash

theorem Printed.of_head {text : List Char} (h : Printed text) (rest : List Char) :
    ∀ c, (text ++ rest).head? = some c → Plain c := by
  intro c hc
  rw [List.head?_append_of_ne_nil _ h.ne_nil] at hc
  exact h.plain c (List.mem_of_head? hc)

theorem Printed.of_last {text : List Char} (h : Printed text) (front : List Char) :
    ∀ c, (front ++ text).getLast? = some c → Plain c := by
  intro c hc
  rw [List.getLast?_append_of_ne_nil _ h.ne_nil] at hc
  exact h.plain c (List.mem_of_getLast? hc)

theorem Printed.not_mem_hash {text : List Char} (h : Printed text) : '#' ∉ text :=
  fun hmem => (h.plain '#' hmem).2.2.1 rfl

theorem Printed.fields_eq {text : List Char} (h : Printed text) :
    fields isAsciiWhitespace text = [text] :=
  fields_of_clean h.ne_nil (fun c hc => (h.plain c hc).2.1)

/-- The line of a name has the name as its only candidate. -/
theorem candidates_listed (format : Storage.BlocklistFormat) (sink : Name → IpAddr) (n : Name) :
    candidates format (listed format sink n) = [n.display.toList] := by
  have hname := printed_name n
  cases format with
  | hosts =>
    have haddr := printed_address (sink n)
    show hostsFields ((sink n).display.toList ++ ' ' :: n.display.toList) = _
    have hcontent : preprocess ((sink n).display.toList ++ ' ' :: n.display.toList)
        = some ((sink n).display.toList ++ ' ' :: n.display.toList) := by
      refine preprocess_eq_self ?_ ?_ (haddr.of_head _) ?_
      · exact List.append_ne_nil_of_left_ne_nil haddr.ne_nil _
      · have hspace : '#' ≠ ' ' := by decide
        simp only [List.mem_append, List.mem_cons, not_or]
        exact ⟨haddr.not_mem_hash, hspace, hname.not_mem_hash⟩
      · rw [List.append_cons]
        exact hname.of_last _
    rw [hostsFields, hcontent]
    show (splitAsciiWhitespace _).tail = _
    rw [splitAsciiWhitespace_eq, fields_append_cons _ _ rfl, haddr.fields_eq, hname.fields_eq]
    rfl
  | domainList =>
    show domainListFields n.display.toList = _
    have hcontent : preprocess n.display.toList = some n.display.toList := by
      refine preprocess_eq_self hname.ne_nil hname.not_mem_hash ?_ (hname.of_last [])
      intro c hc
      exact hname.plain c (List.mem_of_head? hc)
    have hspace : ¬ n.display.toList.any Text.isWhitespace = true := by
      rw [List.any_eq_true]
      rintro ⟨c, hc, hwhite⟩
      exact Bool.false_ne_true ((hname.plain c hc).1.symm.trans hwhite)
    rw [domainListFields, hcontent]
    exact if_neg hspace

theorem not_mem_listed (format : Storage.BlocklistFormat) (sink : Name → IpAddr) (n : Name) :
    '\n' ∉ listed format sink n := by
  have hplain : ∀ {text : List Char}, Printed text → '\n' ∉ text := by
    intro text h hmem
    exact Bool.false_ne_true ((h.plain '\n' hmem).1.symm.trans rfl)
  have hname := hplain (printed_name n)
  cases format with
  | hosts =>
    have hspace : '\n' ≠ ' ' := by decide
    show '\n' ∉ (sink n).display.toList ++ ' ' :: n.display.toList
    simp only [List.mem_append, List.mem_cons, not_or]
    exact ⟨hplain (printed_address (sink n)), hspace, hname⟩
  | domainList => exact hname

/-- **A listing parses back** to the names that are listed. -/
theorem mem_parse_listing {format : Storage.BlocklistFormat} {sink : Name → IpAddr}
    {names : List Name} {n : Name} : n ∈ format.parse (listing format sink names) ↔ n ∈ names := by
  have hlines : ∀ line ∈ names.map (listed format sink), '\n' ∉ line := by
    intro line hline
    obtain ⟨m, -, rfl⟩ := List.mem_map.mp hline
    exact not_mem_listed format sink m
  rw [mem_parse_pieces, listing, splitOn_terminated hlines]
  simp only [List.mem_append, or_and_right, exists_or, List.mem_map, exists_exists_and_eq_and,
    candidates_listed, List.mem_singleton, exists_eq_left, candidates_nil, String.ofList_toList,
    Name.fromStr_display, Except.ok.injEq, exists_eq_right]
  simp

/-- **The blocklist parsers are exact**: two texts with a line feed between them parse to
the names of both, a text parses to the valid names among its candidates, and a listing
of names to these names. -/
theorem blocklist_parsers_exact (format : Storage.BlocklistFormat) :
    (∀ a b n, n ∈ format.parse (a ++ '\n' :: b) ↔ n ∈ format.parse a ∨ n ∈ format.parse b) ∧
    (∀ text n, n ∈ format.parse text ↔ ∃ line ∈ lines text, ∃ field,
      Candidate format line field ∧ Name.fromStr (String.ofList field) = .ok n) ∧
    (∀ (sink : Name → IpAddr) (names : List Name) n,
      n ∈ format.parse (listing format sink names) ↔ n ∈ names) ∧
    ∀ text, (format.parse text).Nodup :=
  ⟨fun _ _ _ => mem_parse_append, fun _ _ => mem_parse_iff, fun _ _ _ => mem_parse_listing,
    nodup_parse format⟩

end Blocklist

/-
The text of a blocklist (`blocklist/parse.rs`).

A body is decoded with replacement characters, cut into lines, and each line into
the fields that may be names.  Comments, blank lines and fields that are no names are
skipped, so that every body parses to some set of names.

* `mem_parseLines_iff` — the names of a text, line by line;
* `nodup_parse` — each name is there once, so that the length is the size of the set.
-/
import Sagittarius.Text
import Sagittarius.Storage

open Codec

namespace Blocklist

/-! ### Decoding -/

/-- A continuation byte of UTF-8. -/
def isCont (b : UInt8) : Bool := 0x80 ≤ b && b ≤ 0xBF

/-- The second bytes that may follow the first byte of a sequence of three or four:
no overlong form, no surrogate, nothing above U+10FFFF. -/
def isSecond (first second : UInt8) : Bool :=
  if first = 0xE0 then 0xA0 ≤ second && second ≤ 0xBF
  else if first = 0xED then 0x80 ≤ second && second ≤ 0x9F
  else if first = 0xF0 then 0x90 ≤ second && second ≤ 0xBF
  else if first = 0xF4 then 0x80 ≤ second && second ≤ 0x8F
  else isCont second

/-- The replacement character, for each longest start of a sequence that breaks off. -/
def replacement : Char := '\uFFFD'

/-- The payload bits of a continuation byte. -/
def contBits (b : UInt8) : Nat := (b &&& 0x3F).toNat

/-- The first character and the bytes behind it. -/
def decodeChar (b : UInt8) (rest : List UInt8) : Char × List UInt8 :=
  if b < 0x80 then (Char.ofNat b.toNat, rest)
  else if 0xC2 ≤ b && b ≤ 0xDF then
    match rest with
    | c :: rest' =>
      if isCont c then (Char.ofNat ((b &&& 0x1F).toNat * 64 + contBits c), rest')
      else (replacement, rest)
    | [] => (replacement, [])
  else if 0xE0 ≤ b && b ≤ 0xEF then
    match rest with
    | c :: rest' =>
      if isSecond b c then
        match rest' with
        | d :: rest'' =>
          if isCont d then
            (Char.ofNat (((b &&& 0x0F).toNat * 64 + contBits c) * 64 + contBits d), rest'')
          else (replacement, rest')
        | [] => (replacement, [])
      else (replacement, rest)
    | [] => (replacement, [])
  else if 0xF0 ≤ b && b ≤ 0xF4 then
    match rest with
    | c :: rest' =>
      if isSecond b c then
        match rest' with
        | d :: rest'' =>
          if isCont d then
            match rest'' with
            | e :: rest''' =>
              if isCont e then
                (Char.ofNat ((((b &&& 0x07).toNat * 64 + contBits c) * 64 + contBits d) * 64 +
                  contBits e), rest''')
              else (replacement, rest'')
            | [] => (replacement, [])
          else (replacement, rest')
        | [] => (replacement, [])
      else (replacement, rest)
    | [] => (replacement, [])
  else (replacement, rest)

/-- The characters of the bytes, with as many rounds as there are bytes. -/
def decodeLoop : Nat → List UInt8 → List Char
  | 0, _ => []
  | _ + 1, [] => []
  | fuel + 1, b :: rest => (decodeChar b rest).1 :: decodeLoop fuel (decodeChar b rest).2

/-- `String::from_utf8_lossy`. -/
def fromUtf8Lossy (bytes : List UInt8) : List Char := decodeLoop bytes.length bytes

/-! ### Lines and fields -/

/-- The end of a line without its carriage return. -/
def stripCr (line : List Char) : List Char :=
  if line.getLast? = some '\r' then line.dropLast else line

/-- `str::lines`: the last line needs no line feed, and an empty one is no line. -/
def lines (text : List Char) : List (List Char) :=
  let pieces := text.splitOn '\n'
  pieces.dropLast.map stripCr ++ (pieces.getLast?.toList.filter (· ≠ []))

/-- `char::is_ascii_whitespace`. -/
def isAsciiWhitespace (c : Char) : Bool :=
  c = ' ' || c = '\t' || c = '\n' || c = '\x0C' || c = '\r'

/-- `str::split_ascii_whitespace`. -/
def splitAsciiWhitespace (text : List Char) : List (List Char) :=
  (text.splitOnP isAsciiWhitespace).filter (· ≠ [])

/-- `preprocess`: a line without its comment, or nothing when that leaves no content. -/
def preprocess (line : List Char) : Option (List Char) :=
  let trimmed := Text.trimBy Text.isWhitespace (line.takeWhile (· ≠ '#'))
  if trimmed = [] then none
  else if trimmed.head? = some '!' then none
  else some trimmed

/-! ### Parsers -/

/-- `HashSet::insert`, of a field that is a name. -/
def insertName (names : List Name) (field : List Char) : List Name :=
  match Name.fromStr (String.ofList field) with
  | .ok name => names.insert name
  | .error _ => names

/-- The fields of a line that `HostsParser` reads as names: all but the address. -/
def hostsFields (line : List Char) : List (List Char) :=
  match preprocess line with
  | none => []
  | some content => (splitAsciiWhitespace content).tail

/-- The field of a line that `DomainListParser` reads as a name. -/
def domainListFields (line : List Char) : List (List Char) :=
  match preprocess line with
  | none => []
  | some content => if content.any Text.isWhitespace then [] else [content]

/-- The loop over the lines of both parsers. -/
def parseLines (fields : List Char → List (List Char)) (text : List Char) : List Name :=
  ((lines text).flatMap fields).foldl insertName []

end Blocklist

open Blocklist in
/-- `Parser::parse`: the set of names, each once. -/
def Storage.BlocklistFormat.parse : Storage.BlocklistFormat → List Char → List Name
  | .hosts => parseLines hostsFields
  | .domainList => parseLines domainListFields

namespace Blocklist

theorem mem_insertName {names : List Name} {field : List Char} {n : Name} :
    n ∈ insertName names field ↔ n ∈ names ∨ Name.fromStr (String.ofList field) = .ok n := by
  rw [insertName]
  cases Name.fromStr (String.ofList field) with
  | error e => simp
  | ok name =>
    rw [List.mem_insert_iff]
    constructor
    · rintro (rfl | h)
      · exact .inr rfl
      · exact .inl h
    · rintro (h | h)
      · exact .inr h
      · exact .inl (Except.ok.inj h).symm

theorem mem_foldl_insertName {n : Name} : ∀ {fields : List (List Char)} {names : List Name},
    n ∈ fields.foldl insertName names ↔
      n ∈ names ∨ ∃ field ∈ fields, Name.fromStr (String.ofList field) = .ok n := by
  intro fields
  induction fields with
  | nil =>
    intro names
    simp
  | cons field fields ih =>
    intro names
    rw [List.foldl_cons, ih, mem_insertName, List.exists_mem_cons_iff, or_assoc]

theorem nodup_foldl_insertName : ∀ {fields : List (List Char)} {names : List Name},
    names.Nodup → (fields.foldl insertName names).Nodup := by
  intro fields
  induction fields with
  | nil =>
    intro names h
    exact h
  | cons field fields ih =>
    intro names h
    refine ih ?_
    rw [insertName]
    cases Name.fromStr (String.ofList field) with
    | error e => exact h
    | ok name => exact h.insert

/-- Each name is there once. -/
theorem nodup_parse (format : Storage.BlocklistFormat) (text : List Char) :
    (format.parse text).Nodup := by
  cases format with
  | hosts => exact nodup_foldl_insertName .nil
  | domainList => exact nodup_foldl_insertName .nil

/-- The names of a text: what some field of some line reads as. -/
theorem mem_parseLines_iff {fields : List Char → List (List Char)} {text : List Char} {n : Name} :
    n ∈ parseLines fields text ↔
      ∃ line ∈ lines text, ∃ field ∈ fields line, Name.fromStr (String.ofList field) = .ok n := by
  rw [parseLines, mem_foldl_insertName]
  simp only [List.not_mem_nil, false_or, List.mem_flatMap]
  constructor
  · rintro ⟨field, ⟨line, hline, hfield⟩, h⟩
    exact ⟨line, hline, field, hfield, h⟩
  · rintro ⟨line, hline, field, hfield, h⟩
    exact ⟨field, ⟨line, hline, hfield⟩, h⟩

end Blocklist

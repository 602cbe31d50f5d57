/-
IP addresses as text (`Display` and `FromStr` of `std::net`).

The parser follows the standard library's: a reader over the characters that
restores its input where a part does not match, so each `read*` returns the
value and the rest, or `none`.  The printer compresses the longest run of zero
segments and writes IPv4-mapped addresses in dotted form:

* `Ipv4Addr.parse_display`, `Ipv6Addr.parse_display` — printing is inverted by
  parsing.
-/
import Sagittarius.IpAddr
import Sagittarius.Numeral

open BigEndian Numeral

/-! ### Reading -/

namespace IpText

/-- `Parser::read_given_char`. -/
def readGivenChar (target : Char) : List Char → Option (List Char)
  | c :: cs => if c = target then some cs else none
  | [] => none

/-- `Parser::read_separator`: a separator stands before every part but the first. -/
def readSeparator {α : Type} (sep : Char) (index : Nat)
    (inner : List Char → Option (α × List Char)) (cs : List Char) : Option (α × List Char) :=
  if index > 0 then (readGivenChar sep cs).bind inner else inner cs

/-- One octet of a dotted address. -/
def readOctet (cs : List Char) : Option (UInt8 × List Char) :=
  (readNumber 10 (some 3) false 256 cs).map (fun (n, rest) => (UInt8.ofNat n, rest))

/-- `Parser::read_ipv4_addr`. -/
def readIpv4Addr (cs : List Char) : Option (Ipv4Addr × List Char) := do
  let (a, cs) ← readSeparator '.' 0 readOctet cs
  let (b, cs) ← readSeparator '.' 1 readOctet cs
  let (c, cs) ← readSeparator '.' 2 readOctet cs
  let (d, cs) ← readSeparator '.' 3 readOctet cs
  pure (⟨a, b, c, d⟩, cs)

/-- One group of an IPv6 address. -/
def readGroup (cs : List Char) : Option (UInt16 × List Char) :=
  (readNumber 16 (some 4) true 65536 cs).map (fun (n, rest) => (UInt16.ofNat n, rest))

/-- `read_groups`: up to `limit` groups from index `i` on, and whether the last
two were a dotted IPv4 address. -/
def readGroups : Nat → Nat → List Char → List UInt16 × Bool × List Char
  | 0, _, cs => ([], false, cs)
  | limit + 1, i, cs =>
    match if limit > 0 then readSeparator ':' i readIpv4Addr cs else none with
    | some (v4, rest) => ([ofBe16 v4.a v4.b, ofBe16 v4.c v4.d], true, rest)
    | none =>
      match readSeparator ':' i readGroup cs with
      | some (g, rest) =>
        let (gs, ipv4, rest) := readGroups limit (i + 1) rest
        (g :: gs, ipv4, rest)
      | none => ([], false, cs)

/-- The address with these segments, if there are eight of them. -/
def ofSegments (segments : List UInt16) : Option Ipv6Addr :=
  if h : segments.length = 8 then some ⟨segments, h⟩ else none

/-- `Parser::read_ipv6_addr`. -/
def readIpv6Addr (cs : List Char) : Option (Ipv6Addr × List Char) :=
  let (head, headIpv4, cs) := readGroups 8 0 cs
  if head.length = 8 then (ofSegments head).map (·, cs)
  -- A dotted part may not stand before `::`.
  else if headIpv4 then none
  else do
    let cs ← readGivenChar ':' cs
    let cs ← readGivenChar ':' cs
    let (tail, _, cs) := readGroups (8 - (head.length + 1)) 0 cs
    let zeros := List.replicate (8 - head.length - tail.length) 0
    (ofSegments (head ++ (zeros ++ tail))).map (·, cs)

/-- `Parser::parse_with`: the whole text has to be read. -/
def parseWith {α : Type} (inner : List Char → Option (α × List Char)) (cs : List Char) :
    Option α :=
  match inner cs with
  | some (a, []) => some a
  | _ => none

end IpText

open IpText

/-- `FromStr for Ipv4Addr`.  The longest dotted address has fifteen characters. -/
def Ipv4Addr.parse (s : String) : Option Ipv4Addr :=
  if s.toList.length > 15 then none else parseWith readIpv4Addr s.toList

/-- `FromStr for Ipv6Addr`. -/
def Ipv6Addr.parse (s : String) : Option Ipv6Addr := parseWith readIpv6Addr s.toList

/-- `Parser::read_ip_addr`. -/
def IpText.readIpAddr (cs : List Char) : Option (IpAddr × List Char) :=
  match readIpv4Addr cs with
  | some (ip, rest) => some (.v4 ip, rest)
  | none => (readIpv6Addr cs).map (fun (ip, rest) => (.v6 ip, rest))

/-- `FromStr for IpAddr`. -/
def IpAddr.parse (s : String) : Option IpAddr := parseWith readIpAddr s.toList

namespace IpText

/-- `Parser::read_port`. -/
def readPort (cs : List Char) : Option (UInt16 × List Char) := do
  let cs ← readGivenChar ':' cs
  let (n, cs) ← readNumber 10 none true 65536 cs
  pure (UInt16.ofNat n, cs)

/-- `Parser::read_scope_id`. -/
def readScopeId (cs : List Char) : Option (UInt32 × List Char) := do
  let cs ← readGivenChar '%' cs
  let (n, cs) ← readNumber 10 none true 4294967296 cs
  pure (UInt32.ofNat n, cs)

/-- `Parser::read_socket_addr_v4`. -/
def readSocketAddrV4 (cs : List Char) : Option (SocketAddr × List Char) := do
  let (ip, cs) ← readIpv4Addr cs
  let (port, cs) ← readPort cs
  pure (.v4 ip port, cs)

/-- `Parser::read_socket_addr_v6`. -/
def readSocketAddrV6 (cs : List Char) : Option (SocketAddr × List Char) := do
  let cs ← readGivenChar '[' cs
  let (ip, cs) ← readIpv6Addr cs
  let (scopeId, cs) := (readScopeId cs).getD (0, cs)
  let cs ← readGivenChar ']' cs
  let (port, cs) ← readPort cs
  pure (.v6 ip port scopeId, cs)

end IpText

/-- `FromStr for SocketAddr`. -/
def SocketAddr.parse (s : String) : Option SocketAddr :=
  parseWith (fun cs => (readSocketAddrV4 cs).or (readSocketAddrV6 cs)) s.toList

/-! ### Printing -/

namespace IpText

/-- A run of zero segments. -/
structure Span where
  start : Nat
  len : Nat
  deriving DecidableEq, Repr

/-- The run one zero segment longer; a new run starts at `i`. -/
def Span.extend (current : Span) (i : Nat) : Span :=
  ⟨if current.len = 0 then i else current.start, current.len + 1⟩

/-- The longer of two runs, the second where they tie. -/
def Span.longer (current longest : Span) : Span :=
  if current.len > longest.len then current else longest

/-- The loop that finds the first longest run of zero segments. -/
def longestZeroes : List UInt16 → Nat → Span → Span → Span
  | [], _, _, longest => longest
  | segment :: rest, i, current, longest =>
    if segment = 0 then
      longestZeroes rest (i + 1) (current.extend i) ((current.extend i).longer longest)
    else longestZeroes rest (i + 1) ⟨0, 0⟩ longest

/-- The groups behind the first, each after a colon. -/
def colonGroups (gs : List UInt16) : List Char :=
  gs.flatMap (fun g => ':' :: Nat.toDigits 16 g.toNat)

/-- `fmt_subslice`: groups in hexadecimal with colons between them. -/
def groupsText : List UInt16 → List Char
  | [] => []
  | g :: gs => Nat.toDigits 16 g.toNat ++ colonGroups gs

/-- The dotted form. -/
def dottedText (ip : Ipv4Addr) : List Char :=
  Nat.toDigits 10 ip.a.toNat ++ '.' :: (Nat.toDigits 10 ip.b.toNat ++
    '.' :: (Nat.toDigits 10 ip.c.toNat ++ '.' :: Nat.toDigits 10 ip.d.toNat))

/-- `Ipv6Addr::to_ipv4_mapped`. -/
def toIpv4Mapped (ip : Ipv6Addr) : Option Ipv4Addr :=
  match ip.segments with
  | [0, 0, 0, 0, 0, 0xFFFF, g, h] =>
    some ⟨UInt8.ofNat (g.toNat / 256), UInt8.ofNat (g.toNat % 256), UInt8.ofNat (h.toNat / 256),
      UInt8.ofNat (h.toNat % 256)⟩
  | _ => none

/-- The text of an IPv6 address that is not IPv4-mapped. -/
def segmentsText (segments : List UInt16) : List Char :=
  let zeroes := longestZeroes segments 0 ⟨0, 0⟩ ⟨0, 0⟩
  if zeroes.len > 1 then
    groupsText (segments.take zeroes.start) ++
      ':' :: ':' :: groupsText (segments.drop (zeroes.start + zeroes.len))
  else groupsText segments

end IpText

/-- `Display for Ipv4Addr`. -/
def Ipv4Addr.display (ip : Ipv4Addr) : String := String.ofList (dottedText ip)

/-- `Display for Ipv6Addr`. -/
def Ipv6Addr.display (ip : Ipv6Addr) : String :=
  match toIpv4Mapped ip with
  | some v4 => String.ofList (':' :: ':' :: 'f' :: 'f' :: 'f' :: 'f' :: ':' :: dottedText v4)
  | none => String.ofList (segmentsText ip.segments)

/-- `Display for IpAddr`. -/
def IpAddr.display : IpAddr → String
  | .v4 ip => ip.display
  | .v6 ip => ip.display

/-- `SocketAddr::ip`. -/
def SocketAddr.ip : SocketAddr → IpAddr
  | .v4 ip _ => .v4 ip
  | .v6 ip _ _ => .v6 ip

/-- `Display for SocketAddr`. -/
def SocketAddr.display : SocketAddr → String
  | .v4 ip port => s!"{ip.display}:{port}"
  | .v6 ip port scopeId =>
    if scopeId = 0 then s!"[{ip.display}]:{port}" else s!"[{ip.display}%{scopeId}]:{port}"

/-! ### The characters of an address -/

namespace IpText

/-- What addresses are printed with. -/
def AddrChar (c : Char) : Prop := (∃ d < 16, c = Nat.digitChar d) ∨ c = ':' ∨ c = '.'

theorem addrChar_toDigits {radix n : Nat} (h1 : 1 < radix) (h16 : radix ≤ 16) :
    ∀ c ∈ Nat.toDigits radix n, AddrChar c := by
  intro c hc
  exact .inl (mem_toDigits h1 h16 n c hc)

theorem addrChar_dottedText (ip : Ipv4Addr) : ∀ c ∈ dottedText ip, AddrChar c := by
  have hdigits : ∀ n, ∀ c ∈ Nat.toDigits 10 n, AddrChar c :=
    fun n => addrChar_toDigits (by omega) (by omega)
  have hdot : AddrChar '.' := .inr (.inr rfl)
  rw [dottedText]
  simp only [List.forall_mem_append, List.forall_mem_cons]
  exact ⟨hdigits _, hdot, hdigits _, hdot, hdigits _, hdot, hdigits _⟩

theorem addrChar_groupsText (segments : List UInt16) : ∀ c ∈ groupsText segments, AddrChar c := by
  have hcolon : AddrChar ':' := .inr (.inl rfl)
  cases segments with
  | nil => simp [groupsText]
  | cons g gs =>
    rw [groupsText, List.forall_mem_append]
    refine ⟨addrChar_toDigits (by omega) (by omega), ?_⟩
    intro c hc
    obtain ⟨g', -, hc⟩ := List.mem_flatMap.mp hc
    rcases List.mem_cons.mp hc with rfl | hc
    · exact hcolon
    · exact addrChar_toDigits (by omega) (by omega) c hc

end IpText

/-- An address is printed with digits, colons and dots, at least one of them. -/
theorem IpAddr.display_spec (ip : IpAddr) :
    ip.display.toList ≠ [] ∧ ∀ c ∈ ip.display.toList, AddrChar c := by
  have hcolon : AddrChar ':' := .inr (.inl rfl)
  have hdotted : ∀ v4, dottedText v4 ≠ [] := by
    intro v4
    simp [dottedText]
  cases ip with
  | v4 ip =>
    rw [display, Ipv4Addr.display, String.toList_ofList]
    exact ⟨hdotted ip, addrChar_dottedText ip⟩
  | v6 ip =>
    rw [display, Ipv6Addr.display]
    cases toIpv4Mapped ip with
    | some v4 =>
      simp only [String.toList_ofList]
      refine ⟨List.cons_ne_nil _ _, ?_⟩
      have hf : AddrChar 'f' := .inl ⟨15, by omega, rfl⟩
      simp only [List.forall_mem_cons]
      exact ⟨hcolon, hcolon, hf, hf, hf, hf, hcolon, addrChar_dottedText v4⟩
    | none =>
      simp only [String.toList_ofList, segmentsText]
      split_ifs
      · refine ⟨by simp, ?_⟩
        simp only [List.forall_mem_append, List.forall_mem_cons]
        exact ⟨addrChar_groupsText _, hcolon, hcolon, addrChar_groupsText _⟩
      · refine ⟨?_, addrChar_groupsText _⟩
        have hlen := ip.length_eq
        cases hsegments : ip.segments with
        | nil =>
          rw [hsegments] at hlen
          cases hlen
        | cons g gs => simp [groupsText]

/-! ### Dotted addresses are read back -/

namespace IpText

theorem stops_of_head {radix : Nat} {c : Char} {rest : List Char} (h : isDigit radix c = false) :
    Stops radix (c :: rest) := by
  intro c' hc'
  rw [List.head?_cons, Option.some_inj] at hc'
  rw [← hc']
  exact h

theorem stops_nil (radix : Nat) : Stops radix [] := by
  intro c hc
  exact absurd hc (by simp)

theorem readOctet_toDigits (b : UInt8) {rest : List Char} (hrest : Stops 10 rest) :
    readOctet (Nat.toDigits 10 b.toNat ++ rest) = some (b, rest) := by
  have hb := b.toNat_lt
  rw [readOctet, readNumber_toDigits (by omega) (by omega) (by omega) hrest (fun k hk => ?_)]
  · simp
  · obtain rfl : k = 3 := by simpa using hk.symm
    omega

theorem readIpv4Addr_dottedText (ip : Ipv4Addr) {rest : List Char} (hrest : Stops 10 rest) :
    readIpv4Addr (dottedText ip ++ rest) = some (ip, rest) := by
  have hdot : ∀ cs, Stops 10 ('.' :: cs) := fun cs => stops_of_head (by decide)
  simp only [readIpv4Addr, dottedText, readSeparator, readGivenChar, List.append_assoc,
    List.cons_append, Nat.lt_irrefl, gt_iff_lt, if_false, if_true, Option.bind_some,
    readOctet_toDigits _ (hdot _), readOctet_toDigits _ hrest, Option.bind_eq_bind,
    Nat.zero_lt_succ]
  rfl

/-- Without a dot after the first number there is no dotted address. -/
theorem readIpv4Addr_none {cs : List Char}
    (h : (cs.dropWhile (isDigit 10)).head? ≠ some '.') : readIpv4Addr cs = none := by
  simp only [readIpv4Addr, readSeparator, Nat.lt_irrefl, gt_iff_lt, if_false, Nat.zero_lt_one,
    if_true, Option.bind_eq_bind]
  cases hoct : readOctet cs with
  | none => rfl
  | some p =>
    obtain ⟨a, rest⟩ := p
    have hrest : rest = cs.dropWhile (isDigit 10) := by
      simp only [readOctet, readNumber, Option.map_eq_some_iff] at hoct
      obtain ⟨⟨n, rest'⟩, hn, heq⟩ := hoct
      split_ifs at hn
      simp only [Option.some_inj, Prod.mk.injEq] at hn heq
      rw [← heq.2, ← hn.2]
    have hsep : readGivenChar '.' rest = none := by
      rw [hrest]
      cases hd : cs.dropWhile (isDigit 10) with
      | nil => rfl
      | cons c cs' =>
        rw [hd] at h
        exact if_neg (by simpa using h)
    simp only [Option.bind_some, hsep, Option.bind_none]

end IpText

theorem Ipv4Addr.parse_display (ip : Ipv4Addr) : Ipv4Addr.parse ip.display = some ip := by
  have hoctet : ∀ b : UInt8, (Nat.toDigits 10 b.toNat).length ≤ 3 := by
    intro b
    have hb := b.toNat_lt
    exact (Nat.length_toDigits_le_iff (by omega) (by omega)).mpr (by omega)
  have hlen : (dottedText ip).length ≤ 15 := by
    have ha := hoctet ip.a
    have hb := hoctet ip.b
    have hc := hoctet ip.c
    have hd := hoctet ip.d
    simp only [dottedText, List.length_append, List.length_cons]
    omega
  have hread := readIpv4Addr_dottedText ip (stops_nil 10)
  rw [List.append_nil] at hread
  rw [Ipv4Addr.parse, Ipv4Addr.display, String.toList_ofList, if_neg (by omega), parseWith, hread]

/-! ### Groups are read back -/

namespace IpText

/-- What may follow a group: the end, or a colon. -/
def GroupEnd (rest : List Char) : Prop := rest = [] ∨ ∃ cs, rest = ':' :: cs

/-- What may follow the last group: the end, or the double colon. -/
def LastEnd (rest : List Char) : Prop := rest = [] ∨ ∃ cs, rest = ':' :: ':' :: cs

theorem LastEnd.groupEnd {rest : List Char} (h : LastEnd rest) : GroupEnd rest := by
  rcases h with rfl | ⟨cs, rfl⟩
  · exact Or.inl rfl
  · exact Or.inr ⟨_, rfl⟩

theorem groupEnd_colonGroups {gs : List UInt16} {rest : List Char} (h : GroupEnd rest) :
    GroupEnd (colonGroups gs ++ rest) := by
  cases gs with
  | nil => exact h
  | cons g gs => exact Or.inr ⟨_, rfl⟩

theorem GroupEnd.stops {rest : List Char} (h : GroupEnd rest) : Stops 16 rest := by
  rcases h with rfl | ⟨cs, rfl⟩
  · exact stops_nil 16
  · exact stops_of_head (by decide)

theorem readGroup_toDigits (g : UInt16) {rest : List Char} (hrest : GroupEnd rest) :
    readGroup (Nat.toDigits 16 g.toNat ++ rest) = some (g, rest) := by
  have hg := g.toNat_lt
  rw [readGroup, readNumber_toDigits (by omega) (by omega) (by omega) hrest.stops (fun k hk => ?_)]
  · simp
  · obtain rfl : k = 4 := by simpa using hk.symm
    omega

/-- A hexadecimal group does not start a dotted address. -/
theorem readIpv4Addr_group (g : UInt16) {rest : List Char} (hrest : GroupEnd rest) :
    readIpv4Addr (Nat.toDigits 16 g.toNat ++ rest) = none := by
  have key : ∀ ds : List Char, (∀ c ∈ ds, isDigit 16 c = true) →
      ((ds ++ rest).dropWhile (isDigit 10)).head? ≠ some '.' := by
    intro ds
    induction ds with
    | nil =>
      intro _
      rcases hrest with rfl | ⟨cs, rfl⟩
      · simp
      · rw [List.nil_append, List.dropWhile_cons, if_neg (by decide)]
        simp
    | cons c ds ih =>
      intro hds
      rw [List.cons_append, List.dropWhile_cons]
      split_ifs with hc
      · exact ih (fun c' hc' => hds c' (by simp [hc']))
      · intro hdot
        rw [List.head?_cons, Option.some_inj] at hdot
        have := hds c (by simp)
        rw [hdot] at this
        exact absurd this (by decide)
  exact readIpv4Addr_none (key _ (isDigit_of_mem_toDigits (by omega) (by omega) _))

/-- Neither a group nor a dotted address starts with a colon. -/
theorem readGroup_colon (cs : List Char) : readGroup (':' :: cs) = none := by
  have : (':' :: cs).takeWhile (isDigit 16) = [] := by
    rw [List.takeWhile_cons, if_neg (by decide)]
  simp [readGroup, readNumber, this]

theorem readIpv4Addr_colon (cs : List Char) : readIpv4Addr (':' :: cs) = none := by
  apply readIpv4Addr_none
  rw [List.dropWhile_cons, if_neg (by decide)]
  simp

theorem readGroups_colonGroups : ∀ {gs : List UInt16} {limit i : Nat} {rest : List Char},
    gs.length ≤ limit → 0 < i → LastEnd rest →
    readGroups limit i (colonGroups gs ++ rest) = (gs, false, rest) := by
  intro gs
  induction gs with
  | nil =>
    intro limit i rest _ hi hrest
    cases limit with
    | zero => rfl
    | succ limit =>
      rcases hrest with rfl | ⟨cs, rfl⟩
      · simp [readGroups, readSeparator, readGivenChar, hi, colonGroups]
      · simp [readGroups, readSeparator, readGivenChar, hi, colonGroups, readIpv4Addr_colon,
          readGroup_colon]
  | cons g gs ih =>
    intro limit i rest hlimit hi hrest
    obtain ⟨limit, rfl⟩ : ∃ k, limit = k + 1 := ⟨limit - 1, by simp at hlimit; omega⟩
    have hend : GroupEnd (colonGroups gs ++ rest) := groupEnd_colonGroups hrest.groupEnd
    have htext : colonGroups (g :: gs) ++ rest
        = ':' :: (Nat.toDigits 16 g.toNat ++ (colonGroups gs ++ rest)) := by
      simp [colonGroups]
    have hrec := ih (i := i + 1) (show gs.length ≤ limit by simpa using hlimit) (by omega) hrest
    simp [htext, readGroups, readSeparator, readGivenChar, hi, readIpv4Addr_group g hend,
      readGroup_toDigits g hend, hrec]

theorem readGroups_groupsText {gs : List UInt16} {limit : Nat} {rest : List Char}
    (hlimit : gs.length ≤ limit) (hrest : LastEnd rest) :
    readGroups limit 0 (groupsText gs ++ rest) = (gs, false, rest) := by
  cases gs with
  | nil =>
    cases limit with
    | zero => rfl
    | succ limit =>
      have hempty : readIpv4Addr [] = none := by decide
      have hempty' : readGroup [] = none := by decide
      rcases hrest with rfl | ⟨cs, rfl⟩
      · simp [readGroups, readSeparator, groupsText, hempty, hempty']
      · simp [readGroups, readSeparator, groupsText, readIpv4Addr_colon, readGroup_colon]
  | cons g gs =>
    obtain ⟨limit, rfl⟩ : ∃ k, limit = k + 1 := ⟨limit - 1, by simp at hlimit; omega⟩
    have hend : GroupEnd (colonGroups gs ++ rest) := groupEnd_colonGroups hrest.groupEnd
    have hrec := readGroups_colonGroups (i := 1) (show gs.length ≤ limit by simpa using hlimit)
      (by omega) hrest
    simp [groupsText, readGroups, readSeparator, readIpv4Addr_group g hend,
      readGroup_toDigits g hend, hrec]

/-! ### The printed address is read back -/

/-- The span holds zeros only. -/
def ZeroSpan (segments : List UInt16) (span : Span) : Prop :=
  ∀ j, span.start ≤ j → j < span.start + span.len → segments[j]? = some 0

theorem zeroSpan_longestZeroes {segments : List UInt16} :
    ∀ {rest : List UInt16} {i : Nat} {current longest : Span}, segments.drop i = rest →
    ZeroSpan segments longest → ZeroSpan segments current →
    (current.len = 0 ∨ current.start + current.len = i) →
    ZeroSpan segments (longestZeroes rest i current longest) := by
  intro rest
  induction rest with
  | nil =>
    intro i current longest _ hlongest _ _
    exact hlongest
  | cons segment rest ih =>
    intro i current longest hdrop hlongest hcurrent hend
    have hrest : segments.drop (i + 1) = rest := by
      rw [← List.drop_drop, hdrop]
      rfl
    have hget : segments[i]? = some segment := by
      rw [← Nat.add_zero i, ← List.getElem?_drop, hdrop]
      rfl
    by_cases hzero : segment = 0
    · rw [longestZeroes, if_pos hzero]
      -- The current run now ends at `i`, whether it starts there or goes on.
      have hcur : ZeroSpan segments (current.extend i) := by
        intro j hj hj'
        simp only [Span.extend] at hj hj'
        by_cases hji : j = i
        · rw [hji, hget, hzero]
        · by_cases hlen : current.len = 0
          · simp only [hlen, if_true] at hj hj'
            omega
          · simp only [hlen, if_false] at hj hj'
            exact hcurrent j hj (by omega)
      refine ih hrest ?_ hcur (Or.inr ?_)
      · rw [Span.longer]
        split_ifs
        · exact hcur
        · exact hlongest
      · by_cases hlen : current.len = 0
        · simp [Span.extend, hlen]
        · simp only [Span.extend, hlen, if_false]
          omega
    · rw [longestZeroes, if_neg hzero]
      exact ih hrest hlongest (fun j hj hj' => absurd hj' (Nat.not_lt.mpr hj)) (Or.inl rfl)

/-- A list is its part before a zero span, the zeros, and its part behind. -/
theorem ZeroSpan.split {segments : List UInt16} {span : Span} (h : ZeroSpan segments span)
    (hpos : 0 < span.len) : span.start + span.len ≤ segments.length ∧
      segments.take span.start ++ (List.replicate span.len 0 ++
        segments.drop (span.start + span.len)) = segments := by
  have hle : span.start + span.len ≤ segments.length := by
    have hlast := h (span.start + span.len - 1) (by omega) (by omega)
    have := (List.getElem?_eq_some_iff.mp hlast).1
    omega
  have hzeros : (segments.drop span.start).take span.len = List.replicate span.len 0 := by
    rw [List.eq_replicate_iff]
    refine ⟨by rw [List.length_take, List.length_drop]; omega, ?_⟩
    intro b hb
    obtain ⟨j, hj, rfl⟩ := List.mem_iff_getElem.mp hb
    rw [List.length_take] at hj
    have := h (span.start + j) (by omega) (by omega)
    rw [List.getElem?_eq_some_iff] at this
    simpa using this.2
  refine ⟨hle, ?_⟩
  rw [← hzeros, ← List.drop_drop, List.take_append_drop, List.take_append_drop]

theorem readIpv6Addr_of_full {segments : List UInt16} (h : segments.length = 8) :
    readIpv6Addr (groupsText segments) = some (⟨segments, h⟩, []) := by
  have hread : readGroups 8 0 (groupsText segments ++ []) = (segments, false, []) :=
    readGroups_groupsText (by omega) (Or.inl rfl)
  rw [List.append_nil] at hread
  simp [readIpv6Addr, hread, h, ofSegments]

/-- A compressed form: at least one zero group stands for the double colon. -/
theorem readIpv6Addr_of_compressed {head tail : List UInt16} {len : Nat}
    (h : (head ++ (List.replicate len 0 ++ tail)).length = 8) (hlen : 0 < len) :
    readIpv6Addr (groupsText head ++ ':' :: ':' :: groupsText tail)
      = some (⟨head ++ (List.replicate len 0 ++ tail), h⟩, []) := by
  have hsum : head.length + (len + tail.length) = 8 := by simpa using h
  have hhead : readGroups 8 0 (groupsText head ++ ':' :: ':' :: groupsText tail)
      = (head, false, ':' :: ':' :: groupsText tail) :=
    readGroups_groupsText (by omega) (Or.inr ⟨_, rfl⟩)
  have htail : readGroups (8 - (head.length + 1)) 0 (groupsText tail ++ []) = (tail, false, []) :=
    readGroups_groupsText (by omega) (Or.inl rfl)
  rw [List.append_nil] at htail
  have hzeros : 8 - head.length - tail.length = len := by omega
  have hne : head.length ≠ 8 := by omega
  simp only [readIpv6Addr, hhead, hne, if_false, Bool.false_eq_true, readGivenChar, if_true, htail,
    hzeros, Option.bind_eq_bind, Option.bind_some, ofSegments, h, dite_true]
  rfl

/-- The dotted form behind `::ffff:` is the last two of the three tail groups. -/
theorem readIpv6Addr_of_mapped (v4 : Ipv4Addr) :
    readIpv6Addr (':' :: ':' :: 'f' :: 'f' :: 'f' :: 'f' :: ':' :: dottedText v4)
      = some (⟨[0, 0, 0, 0, 0, 0xFFFF, ofBe16 v4.a v4.b, ofBe16 v4.c v4.d], rfl⟩, []) := by
  have hhead : readGroups 8 0 (':' :: ':' :: 'f' :: 'f' :: 'f' :: 'f' :: ':' :: dottedText v4)
      = ([], false, ':' :: ':' :: 'f' :: 'f' :: 'f' :: 'f' :: ':' :: dottedText v4) := by
    show readGroups 8 0 (groupsText [] ++ _) = _
    exact readGroups_groupsText (by simp) (Or.inr ⟨_, rfl⟩)
  have hffff : readGroup ('f' :: 'f' :: 'f' :: 'f' :: ':' :: dottedText v4)
      = some (0xFFFF, ':' :: dottedText v4) := by
    have hdigits : Nat.toDigits 16 (0xFFFF : UInt16).toNat = ['f', 'f', 'f', 'f'] := by decide
    have := readGroup_toDigits 0xFFFF (show GroupEnd (':' :: dottedText v4) from Or.inr ⟨_, rfl⟩)
    rwa [hdigits] at this
  have hno : readIpv4Addr ('f' :: 'f' :: 'f' :: 'f' :: ':' :: dottedText v4) = none := by
    apply readIpv4Addr_none
    rw [List.dropWhile_cons, if_neg (by decide)]
    simp
  have hdotted : readIpv4Addr (dottedText v4) = some (v4, []) := by
    have := readIpv4Addr_dottedText v4 (stops_nil 10)
    rwa [List.append_nil] at this
  have htail : readGroups 7 0 ('f' :: 'f' :: 'f' :: 'f' :: ':' :: dottedText v4)
      = ([0xFFFF, ofBe16 v4.a v4.b, ofBe16 v4.c v4.d], true, []) := by
    simp [readGroups, readSeparator, readGivenChar, hno, hffff, hdotted]
  simp only [readIpv6Addr, hhead, List.length_nil, Nat.zero_ne_add_one, if_false,
    Bool.false_eq_true, readGivenChar, if_true, Option.bind_eq_bind, Option.bind_some, htail]
  rfl

end IpText

theorem Ipv6Addr.parse_display (ip : Ipv6Addr) : Ipv6Addr.parse ip.display = some ip := by
  obtain ⟨segments, h⟩ := ip
  rw [Ipv6Addr.parse, Ipv6Addr.display]
  cases hmapped : toIpv4Mapped ⟨segments, h⟩ with
  | some v4 =>
    rw [String.toList_ofList, parseWith, readIpv6Addr_of_mapped]
    rw [toIpv4Mapped] at hmapped
    split at hmapped
    · rename_i g k hsegments
      simp only at hsegments
      subst hsegments
      rw [Option.some_inj] at hmapped
      subst hmapped
      simp only [ofBe16_be16]
    · exact absurd hmapped (by simp)
  | none =>
    have hread : readIpv6Addr (segmentsText segments) = some (⟨segments, h⟩, []) := by
      rw [segmentsText]
      split_ifs with hlen
      · have hspan : ZeroSpan segments (longestZeroes segments 0 ⟨0, 0⟩ ⟨0, 0⟩) :=
          zeroSpan_longestZeroes rfl (fun j hj hj' => absurd hj' (Nat.not_lt.mpr hj))
            (fun j hj hj' => absurd hj' (Nat.not_lt.mpr hj)) (Or.inl rfl)
        obtain ⟨_, hsplit⟩ := hspan.split (by omega)
        have hlen8 := h
        rw [← hsplit] at hlen8
        rw [readIpv6Addr_of_compressed hlen8 (by omega)]
        simp only [hsplit]
      · exact readIpv6Addr_of_full h
    rw [String.toList_ofList, parseWith, hread]

/-
Reverse names, built and recognized (`Name::reverse_query`, `Name::reverse_addr`).

Both work on the text of the name.  Here they are taken to its labels: the name of an
address has four decimal octets or 32 nibbles before its zone, and a name is recognized
by parsing as many labels before one of the two zones.

* `reverseQuery_ok` — the text is always a name, and what its labels are;
* `reverseAddr_v4_iff`, `reverseAddr_v6_iff` — what is recognized, in labels;
* `reverseAddr_reverseQuery` — the name of an address is recognized as that address;
* `reverse_names_exact_iff` — a recognized name is the name of its address exactly if
  no octet of it has a leading zero.
-/
import Sagittarius.ReverseName
import Sagittarius.NameRoundTrip
import Sagittarius.Synth

open BigEndian Delimited Numeral

namespace Codec

namespace Name

/-! ### The name of an address -/

/-- The text `Name::reverse_query` parses: least significant part first. -/
def reverseText : IpAddr → List Char
  | .v4 ip =>
    Nat.toDigits 10 ip.d.toNat ++ '.' :: (Nat.toDigits 10 ip.c.toNat ++ '.' ::
      (Nat.toDigits 10 ip.b.toNat ++ '.' :: (Nat.toDigits 10 ip.a.toNat ++ ".in-addr.arpa".toList)))
  | .v6 ip =>
    ip.octets.reverse.flatMap (fun octet : UInt8 =>
      Nat.toDigits 16 (octet &&& 0x0F).toNat ++ '.' ::
        (Nat.toDigits 16 (octet >>> 4).toNat ++ ['.'])) ++ "ip6.arpa".toList

/-- The message of the `expect` on that text. -/
def reverseExpect : IpAddr → String
  | .v4 _ => "in-addr.arpa name is always valid"
  | .v6 _ => "ip6.arpa name is always valid"

/-- `Name::reverse_query`. -/
def reverseQuery (ip : IpAddr) : Except Panic Name :=
  expect (fromStr (String.ofList (reverseText ip))).toOption (reverseExpect ip)

/-! ### Plain labels -/

/-- A label that a name can hold as it is: valid, and in lower case. -/
def Plain (cs : List Char) : Prop := ∃ l, asChars l = cs ∧ RawLabel l ∧ lower l = l

theorem Plain.dot_not_mem {cs : List Char} (h : Plain cs) : '.' ∉ cs := by
  obtain ⟨l, rfl, hraw, -⟩ := h
  exact hraw.dot_not_mem

theorem Plain.ne_nil {cs : List Char} (h : Plain cs) : cs ≠ [] := by
  obtain ⟨l, rfl, hraw, -⟩ := h
  intro hnil
  exact hraw.ne_nil (List.map_eq_nil_iff.mp hnil)

/-- Plain labels that fit are the labels of a name. -/
theorem fromStr_of_plain {pieces : List (List Char)} {s : String} (hne : pieces ≠ [])
    (hplain : ∀ p ∈ pieces, Plain p) (hlen : 1 + prefixedLength pieces ≤ MAX_NAME_WIRE_LEN)
    (hs : s.toList ++ ['.'] = terminated '.' pieces) :
    ∃ n, fromStr s = .ok n ∧ n.inner.toList = terminated '.' pieces := by
  obtain ⟨ls, hls⟩ : ∃ ls : List Bytes, ls.map asChars = pieces ∧
      ∀ l ∈ ls, RawLabel l ∧ lower l = l := by
    clear hne hlen hs
    induction pieces with
    | nil => exact ⟨[], rfl, by simp⟩
    | cons p pieces ih =>
      obtain ⟨ls, rfl, hls⟩ := ih (fun q hq => hplain q (List.mem_cons_of_mem _ hq))
      obtain ⟨l, rfl, hl⟩ := hplain p List.mem_cons_self
      refine ⟨l :: ls, rfl, ?_⟩
      intro l' hl'
      rcases List.mem_cons.mp hl' with rfl | hl'
      · exact hl
      · exact hls l' hl'
  obtain ⟨rfl, hls⟩ := hls
  have hnil : ls ≠ [] := by simpa using hne
  have hraw : RawLabels ls := by
    refine ⟨fun l hl => (hls l hl).1, ?_⟩
    have hsame : prefixedLength (ls.map asChars) = prefixedLength ls := by
      simp [prefixedLength, asChars, Function.comp_def]
    rw [wireLen, ← hsame]
    exact hlen
  have hcanon : CanonLabels ls := ⟨hraw, fun l hl => (hls l hl).2⟩
  obtain ⟨n, hn⟩ := exists_of_labels hraw
  refine ⟨n, fromStr_ok_iff_spells.mpr ⟨ls, hraw, ?_, hn⟩, ?_⟩
  · rw [Spells, if_neg hnil]
    exact .inr hs
  · rw [hn, hcanon.map_lower, canonText_of_ne_nil hnil]

/-- The byte of a digit: no hyphen, and no capital. -/
theorem exists_byte_digitChar {d : Nat} (h : d < 16) : ∃ b : UInt8, Char.ofUInt8 b = d.digitChar ∧
    labelByte b = true ∧ b ≠ hyphen ∧ toAsciiLowercase b = b := by
  have key : ∀ v : Nat, v < 16 → Char.ofUInt8 (UInt8.ofNat v.digitChar.toNat) = v.digitChar ∧
      labelByte (UInt8.ofNat v.digitChar.toNat) = true ∧
      UInt8.ofNat v.digitChar.toNat ≠ hyphen ∧
      toAsciiLowercase (UInt8.ofNat v.digitChar.toNat) = UInt8.ofNat v.digitChar.toNat := by
    decide
  exact ⟨_, key d h⟩

/-- Digits are a plain label. -/
theorem plain_of_digits {cs : List Char} (hne : cs ≠ []) (hlen : cs.length ≤ MAX_LABEL_LEN)
    (hcs : ∀ c ∈ cs, ∃ d < 16, c = Nat.digitChar d) : Plain cs := by
  obtain ⟨l, rfl, hl⟩ : ∃ l : Bytes, asChars l = cs ∧
      ∀ b ∈ l, labelByte b = true ∧ b ≠ hyphen ∧ toAsciiLowercase b = b := by
    clear hne hlen
    induction cs with
    | nil => exact ⟨[], rfl, by simp⟩
    | cons c cs ih =>
      obtain ⟨l, rfl, hl⟩ := ih (fun c' hc' => hcs c' (List.mem_cons_of_mem _ hc'))
      obtain ⟨d, hd, rfl⟩ := hcs c List.mem_cons_self
      obtain ⟨b, hb, hlabel⟩ := exists_byte_digitChar hd
      refine ⟨b :: l, by rw [← hb]; rfl, ?_⟩
      intro b' hb'
      rcases List.mem_cons.mp hb' with rfl | hb'
      · exact hlabel
      · exact hl b' hb'
  refine ⟨l, rfl, ⟨by simpa [asChars] using hne, by simpa [asChars] using hlen,
    fun b hb => (hl b hb).1, ?_, ?_⟩, ?_⟩
  · intro hhead
    exact (hl _ (List.mem_of_mem_head? hhead)).2.1 rfl
  · intro hlast
    exact (hl _ (List.mem_of_getLast? hlast)).2.1 rfl
  · rw [lower]
    conv_rhs => rw [← List.map_id l]
    exact List.map_congr_left (fun b hb => (hl b hb).2.2)

theorem plain_octet (b : UInt8) : Plain (Nat.toDigits 10 b.toNat) := by
  have hb := b.toNat_lt
  have hlen : (Nat.toDigits 10 b.toNat).length ≤ 3 :=
    (Nat.length_toDigits_le_iff (by omega) (by omega)).mpr (by omega)
  refine plain_of_digits Nat.toDigits_ne_nil ?_ (mem_toDigits (by omega) (by omega) _)
  rw [MAX_LABEL_LEN]
  omega

theorem plain_nibble {d : Nat} (h : d < 16) : Plain [d.digitChar] := by
  refine plain_of_digits (by simp) (by simp [MAX_LABEL_LEN]) ?_
  intro c hc
  exact ⟨d, h, List.mem_singleton.mp hc⟩

/-! ### The labels of an address -/

/-- The nibbles of a segment, most significant first. -/
def segmentNibbles (s : UInt16) : List Nat :=
  [s.toNat / 4096, s.toNat / 256 % 16, s.toNat / 16 % 16, s.toNat % 16]

/-- The nibbles of an address, least significant first. -/
def nibbles (ip : Ipv6Addr) : List Nat := (ip.segments.flatMap segmentNibbles).reverse

/-- The zone of the addresses of a kind. -/
def zone : IpAddr → List (List Char)
  | .v4 _ => ["in-addr".toList, "arpa".toList]
  | .v6 _ => ["ip6".toList, "arpa".toList]

/-- The labels before the zone. -/
def addrLabels : IpAddr → List (List Char)
  | .v4 ip => [ip.d, ip.c, ip.b, ip.a].map (fun b => Nat.toDigits 10 b.toNat)
  | .v6 ip => (nibbles ip).map (fun d => [d.digitChar])

theorem nibbles_length (ip : Ipv6Addr) : (nibbles ip).length = 32 := by
  have h := ip.length_eq
  simp [nibbles, segmentNibbles, List.length_flatMap, h]

theorem nibbles_lt (ip : Ipv6Addr) : ∀ d ∈ nibbles ip, d < 16 := by
  intro d hd
  rw [nibbles, List.mem_reverse, List.mem_flatMap] at hd
  obtain ⟨s, -, hd⟩ := hd
  have hs := s.toNat_lt
  simp only [segmentNibbles, List.mem_cons, List.not_mem_nil, or_false] at hd
  omega

theorem toNat_low (b : UInt8) : (b &&& 0x0F).toNat = b.toNat % 16 :=
  forall_byte (by decide) b

theorem toNat_high (b : UInt8) : (b >>> 4).toNat = b.toNat / 16 :=
  forall_byte (by decide) b

/-- The two nibbles of each octet from the end, with a dot behind each. -/
theorem nibbleText (segments : List UInt16) :
    (segments.flatMap be16).reverse.flatMap (fun octet : UInt8 =>
      Nat.toDigits 16 (octet &&& 0x0F).toNat ++ '.' ::
        (Nat.toDigits 16 (octet >>> 4).toNat ++ ['.']))
      = terminated '.' ((segments.flatMap segmentNibbles).reverse.map (fun d => [d.digitChar])) := by
  induction segments with
  | nil => rfl
  | cons s segments ih =>
    have hs := s.toNat_lt
    rw [List.flatMap_cons, List.reverse_append, List.flatMap_append, ih, List.flatMap_cons,
      List.reverse_append, List.map_append, terminated, terminated, List.flatMap_append]
    congr 1
    have hlow : (UInt8.ofNat (s.toNat % 256)).toNat = s.toNat % 256 := by
      rw [UInt8.toNat_ofNat']
      omega
    have hhigh : (UInt8.ofNat (s.toNat / 256)).toNat = s.toNat / 256 := by
      rw [UInt8.toNat_ofNat']
      omega
    simp only [be16, segmentNibbles, List.reverse_cons, List.reverse_nil, List.nil_append,
      List.cons_append, List.map_cons, List.map_nil, List.flatMap_cons, List.flatMap_nil,
      toNat_low, toNat_high, hlow, hhigh]
    rw [Nat.toDigits_of_lt_base (by omega), Nat.toDigits_of_lt_base (by omega),
      Nat.toDigits_of_lt_base (by omega), Nat.toDigits_of_lt_base (by omega)]
    have h0 : s.toNat % 256 % 16 = s.toNat % 16 := by omega
    have h1 : s.toNat % 256 / 16 = s.toNat / 16 % 16 := by omega
    have h3 : s.toNat / 256 / 16 = s.toNat / 4096 := by omega
    rw [h0, h1, h3]
    rfl

theorem packSegments_segmentNibbles (segments : List UInt16) :
    packSegments (segments.flatMap segmentNibbles) = segments := by
  induction segments with
  | nil => rfl
  | cons s segments ih =>
    have hs := s.toNat_lt
    rw [List.flatMap_cons, segmentNibbles]
    simp only [List.cons_append, List.nil_append, packSegments, ih]
    congr 1
    apply UInt16.toNat_inj.mp
    rw [UInt16.toNat_ofNat']
    omega

/-- Nibbles that fill segments are the nibbles of the segments. -/
theorem segmentNibbles_packSegments {k : Nat} : ∀ {digits : List Nat}, digits.length = 4 * k →
    (∀ d ∈ digits, d < 16) → (packSegments digits).flatMap segmentNibbles = digits := by
  induction k with
  | zero =>
    intro digits hlen _
    obtain rfl := List.length_eq_zero_iff.mp hlen
    rfl
  | succ k ih =>
    intro digits hlen hlt
    obtain ⟨a, b, c, d, rest, rfl⟩ : ∃ a b c d rest, digits = a :: b :: c :: d :: rest := by
      rcases digits with - | ⟨a, - | ⟨b, - | ⟨c, - | ⟨d, rest⟩⟩⟩⟩
      iterate 4
        simp only [List.length_nil, List.length_cons] at hlen
        omega
      exact ⟨a, b, c, d, rest, rfl⟩
    simp only [List.length_cons] at hlen
    simp only [List.forall_mem_cons] at hlt
    obtain ⟨ha, hb, hc, hd, hlt⟩ := hlt
    have hrest : (packSegments rest).flatMap segmentNibbles = rest := ih (by omega) hlt
    have hword : (UInt16.ofNat (((a * 16 + b) * 16 + c) * 16 + d)).toNat
        = ((a * 16 + b) * 16 + c) * 16 + d := by
      rw [UInt16.toNat_ofNat']
      omega
    rw [packSegments, List.flatMap_cons, hrest, segmentNibbles, hword]
    simp only [List.cons_append, List.nil_append, List.cons.injEq, and_true]
    omega

theorem ofSegments_packSegments {digits : List Nat} (hlen : digits.length = 32)
    (hlt : ∀ d ∈ digits, d < 16) :
    ∃ ip, IpText.ofSegments (packSegments digits.reverse) = some ip ∧ nibbles ip = digits := by
  have hpack : (packSegments digits.reverse).flatMap segmentNibbles = digits.reverse :=
    segmentNibbles_packSegments (k := 8) (by simpa using hlen) (by simpa using hlt)
  have height : (packSegments digits.reverse).length = 8 := by
    have := congrArg List.length hpack
    simp [List.length_flatMap, segmentNibbles, hlen] at this
    omega
  refine ⟨⟨_, height⟩, dif_pos height, ?_⟩
  rw [nibbles]
  simp only
  rw [hpack, List.reverse_reverse]

theorem ofSegments_nibbles (ip : Ipv6Addr) :
    IpText.ofSegments (packSegments (nibbles ip).reverse) = some ip := by
  rw [nibbles, List.reverse_reverse, packSegments_segmentNibbles]
  exact dif_pos ip.length_eq

/-- The text of a reverse name, as labels. -/
theorem reverseText_eq (ip : IpAddr) :
    reverseText ip ++ ['.'] = terminated '.' (addrLabels ip ++ zone ip) := by
  cases ip with
  | v4 ip => simp [reverseText, addrLabels, zone]
  | v6 ip =>
    rw [reverseText, Ipv6Addr.octets, nibbleText, addrLabels, nibbles, terminated, terminated,
      List.flatMap_append, List.append_assoc]
    rfl

theorem plain_zone (ip : IpAddr) : ∀ p ∈ zone ip, Plain p := by
  have harpa : Plain "arpa".toList :=
    ⟨[97, 114, 112, 97], by decide, rawLabel_iff.mpr (by decide), by decide⟩
  have hin : Plain "in-addr".toList :=
    ⟨[105, 110, 45, 97, 100, 100, 114], by decide, rawLabel_iff.mpr (by decide), by decide⟩
  have hip : Plain "ip6".toList :=
    ⟨[105, 112, 54], by decide, rawLabel_iff.mpr (by decide), by decide⟩
  cases ip with
  | v4 ip => exact List.forall_mem_cons.mpr ⟨hin, List.forall_mem_singleton.mpr harpa⟩
  | v6 ip => exact List.forall_mem_cons.mpr ⟨hip, List.forall_mem_singleton.mpr harpa⟩

theorem plain_addrLabels (ip : IpAddr) : ∀ p ∈ addrLabels ip, Plain p := by
  intro p hp
  cases ip with
  | v4 ip =>
    obtain ⟨b, -, rfl⟩ := List.mem_map.mp hp
    exact plain_octet b
  | v6 ip =>
    obtain ⟨d, hd, rfl⟩ := List.mem_map.mp hp
    exact plain_nibble (nibbles_lt ip d hd)

theorem plain_pieces (ip : IpAddr) : ∀ p ∈ addrLabels ip ++ zone ip, Plain p := by
  intro p hp
  rcases List.mem_append.mp hp with hp | hp
  · exact plain_addrLabels ip p hp
  · exact plain_zone ip p hp

/-- The labels of an address fit into a name: at most 74 bytes. -/
theorem prefixedLength_addrLabels (ip : IpAddr) :
    1 + prefixedLength (addrLabels ip ++ zone ip) ≤ MAX_NAME_WIRE_LEN := by
  have happend : ∀ xs ys : List (List Char),
      prefixedLength (xs ++ ys) = prefixedLength xs + prefixedLength ys := by
    intro xs ys
    simp [prefixedLength]
  rw [happend, MAX_NAME_WIRE_LEN]
  cases ip with
  | v4 ip =>
    have hoctet : ∀ b : UInt8, (Nat.toDigits 10 b.toNat).length ≤ 3 := by
      intro b
      have hb := b.toNat_lt
      exact (Nat.length_toDigits_le_iff (by omega) (by omega)).mpr (by omega)
    have ha := hoctet ip.a
    have hb := hoctet ip.b
    have hc := hoctet ip.c
    have hd := hoctet ip.d
    have hzone : prefixedLength (zone (.v4 ip)) = 13 := rfl
    rw [hzone]
    simp only [addrLabels, List.map_cons, List.map_nil, prefixedLength_cons, prefixedLength_nil]
    omega
  | v6 ip =>
    have hlen := nibbles_length ip
    have hzone : prefixedLength (zone (.v6 ip)) = 9 := rfl
    have hlabels : prefixedLength (addrLabels (.v6 ip)) = 64 := by
      simp [addrLabels, prefixedLength, Function.comp_def, hlen]
    omega

/-- **The name of an address**: the `expect` never fails, and the labels are those of
the address. -/
theorem reverseQuery_ok (ip : IpAddr) : ∃ n, reverseQuery ip = .ok n ∧
    n.inner.toList = terminated '.' (addrLabels ip ++ zone ip) := by
  have hne : addrLabels ip ++ zone ip ≠ [] := by
    cases ip with
    | v4 ip => simp [zone]
    | v6 ip => simp [zone]
  obtain ⟨n, hn, htext⟩ := fromStr_of_plain (s := String.ofList (reverseText ip)) hne
    (plain_pieces ip) (prefixedLength_addrLabels ip) (by rw [String.toList_ofList, reverseText_eq])
  refine ⟨n, ?_, htext⟩
  rw [reverseQuery, hn]
  rfl

/-! ### What is recognized -/

theorem stripSuffix?_eq_some {suffix cs rest : List Char} :
    stripSuffix? suffix cs = some rest ↔ cs = rest ++ suffix := by
  rw [stripSuffix?]
  split_ifs with h
  · obtain ⟨pre, rfl⟩ := List.isSuffixOf_iff_suffix.mp h
    simp
  · refine iff_of_false (by simp) ?_
    rintro rfl
    exact h (List.isSuffixOf_iff_suffix.mpr ⟨rest, rfl⟩)

/-- The text of a name, as the labels before a zone of two. -/
theorem pieces_of_toList {n : Name} {body : List Char} {p q : List Char} (hp : '.' ∉ p)
    (hq : '.' ∉ q) (h : n.inner.toList = body ++ '.' :: (p ++ '.' :: (q ++ ['.']))) :
    n.labels.map asChars = body.splitOn '.' ++ [p, q] := by
  have hne : n.labels ≠ [] := by
    intro hnil
    have htext := n.toList_eq
    rw [hnil, h] at htext
    have := congrArg List.length htext
    simp [canonText] at this
    omega
  have htext := n.toList_eq
  rw [canonText_of_ne_nil hne, h] at htext
  refine terminated_injective ?_ ?_ (htext.symm.trans ?_)
  · intro l hl
    obtain ⟨l', hl', rfl⟩ := List.mem_map.mp hl
    exact (n.labels_canon.raw l' hl').dot_not_mem
  · intro l hl
    rcases List.mem_append.mp hl with hl | hl
    · exact not_mem_of_mem_splitOn hl
    · rcases List.mem_pair.mp hl with rfl | rfl
      · exact hp
      · exact hq
  · rw [terminated, List.flatMap_append]
    show _ = terminated '.' (body.splitOn '.') ++ _
    rw [terminated_splitOn]
    simp

/-- Labels that hold no dot are what some text splits into. -/
theorem exists_splitOn {ps : List (List Char)} (hne : ps ≠ []) (hdot : ∀ p ∈ ps, '.' ∉ p) :
    ∃ body, terminated '.' ps = body ++ ['.'] ∧ body.splitOn '.' = ps := by
  obtain ⟨p, ps, rfl⟩ := List.exists_cons_of_ne_nil hne
  obtain ⟨body, hbody⟩ := terminated_eq_concat '.' ps p
  refine ⟨body, hbody, terminated_injective (fun l hl => not_mem_of_mem_splitOn hl) hdot ?_⟩
  rw [terminated_splitOn, hbody]

/-- The labels of a name hold no dot. -/
theorem dot_not_mem_labels (n : Name) : ∀ p ∈ n.labels.map asChars, '.' ∉ p := by
  intro p hp
  obtain ⟨l, hl, rfl⟩ := List.mem_map.mp hp
  exact (n.labels_canon.raw l hl).dot_not_mem

/-- A name ends with a zone of two labels if its text does. -/
theorem toList_eq_zone_iff {n : Name} {p q : List Char} (hp : '.' ∉ p) (hq : '.' ∉ q)
    {ps : List (List Char)} (hne : ps ≠ []) :
    n.labels.map asChars = ps ++ [p, q] ↔
      ∃ body, n.inner.toList = body ++ '.' :: (p ++ '.' :: (q ++ ['.'])) ∧ body.splitOn '.' = ps := by
  constructor
  · intro h
    have hnil : n.labels ≠ [] := by
      intro hnil
      rw [hnil] at h
      exact hne (List.append_eq_nil_iff.mp h.symm).1
    have hdot : ∀ l ∈ ps, '.' ∉ l := by
      intro l hl
      exact dot_not_mem_labels n l (h ▸ List.mem_append_left _ hl)
    obtain ⟨body, hbody, hsplit⟩ := exists_splitOn hne hdot
    refine ⟨body, ?_, hsplit⟩
    rw [n.toList_eq, canonText_of_ne_nil hnil, h, terminated, List.flatMap_append]
    show terminated '.' ps ++ _ = _
    rw [hbody]
    simp
  · rintro ⟨body, htext, rfl⟩
    exact pieces_of_toList hp hq htext

/-- One label of an `in-addr.arpa` name: an octet. -/
def parseOctet (label : List Char) : Option UInt8 := (parseUnsigned 256 label).map UInt8.ofNat

theorem parseInAddrArpa_eq_some {octets : List Char} {ip : Ipv4Addr} :
    parseInAddrArpa octets = some ip ↔
      (octets.splitOn '.').mapM parseOctet = some [ip.d, ip.c, ip.b, ip.a] := by
  have hoctet : (fun label => (parseUnsigned 256 label).map UInt8.ofNat) = parseOctet := rfl
  rw [parseInAddrArpa, hoctet]
  constructor
  · intro h
    split at h
    · rename_i d c b a hmap
      cases h
      exact hmap
    · cases h
  · intro h
    rw [h]

theorem mapM_eq_some_iff {α β : Type} {f : α → Option β} : ∀ {xs : List α} {ys : List β},
    xs.mapM f = some ys ↔ xs.map f = ys.map some := by
  intro xs
  induction xs with
  | nil =>
    intro ys
    rw [List.mapM_nil, List.map_nil]
    constructor
    · rintro h
      cases h
      rfl
    · intro h
      obtain rfl := List.map_eq_nil_iff.mp h.symm
      rfl
  | cons x xs ih =>
    intro ys
    rw [List.mapM_cons, List.map_cons, Option.bind_eq_bind, Option.bind_eq_some_iff]
    constructor
    · rintro ⟨y, hy, h⟩
      obtain ⟨rest, hrest, h⟩ := Option.bind_eq_some_iff.mp h
      cases h
      rw [hy, ih.mp hrest, List.map_cons]
    · intro h
      obtain ⟨y, rest, rfl, hy, hrest⟩ := List.map_eq_cons_iff.mp h.symm
      exact ⟨y, hy.symm, Option.bind_eq_some_iff.mpr ⟨rest, ih.mpr hrest.symm, rfl⟩⟩

/-- Labels that are each read as the part they spell are the spelled parts. -/
theorem eq_map_of_map_eq {α β : Type} {f : α → Option β} {g : β → α} :
    ∀ {xs : List α} {ys : List β}, (∀ x ∈ xs, ∀ y, f x = some y → x = g y) →
    xs.map f = ys.map some → xs = ys.map g := by
  intro xs
  induction xs with
  | nil =>
    intro ys _ h
    obtain rfl := List.map_eq_nil_iff.mp h.symm
    rfl
  | cons x xs ih =>
    intro ys hspell h
    obtain ⟨y, ys, rfl, hy, hys⟩ := List.map_eq_cons_iff.mp h.symm
    rw [List.map_cons, ← hspell x List.mem_cons_self y hy.symm,
      ← ih (fun x' hx' => hspell x' (List.mem_cons_of_mem _ hx')) hys.symm]

theorem parseNibble_digitChar {d : Nat} (h : d < 16) : parseNibble [d.digitChar] = some d := by
  have key : ∀ v < 16, parseNibble [Nat.digitChar v] = some v := by decide
  exact key d h

theorem parseNibble_lt {label : List Char} {d : Nat} (h : parseNibble label = some d) : d < 16 := by
  rw [parseNibble] at h
  split at h
  · exact (toDigit_eq_some h).1
  · cases h

/-- A nibble in lower case is spelled one way. -/
theorem eq_digitChar_of_parseNibble {l : Bytes} {d : Nat} (hraw : RawLabel l) (hlower : lower l = l)
    (h : parseNibble (asChars l) = some d) : asChars l = [d.digitChar] := by
  rw [parseNibble, asBytes_asChars hraw.labelByte_of_mem] at h
  split at h
  · rename_i byte
    have hcapital : ¬ ('A' ≤ Char.ofUInt8 byte ∧ Char.ofUInt8 byte ≤ 'Z') := by
      have key : ∀ b : UInt8, toAsciiLowercase b = b →
          ¬ ('A' ≤ Char.ofUInt8 b ∧ Char.ofUInt8 b ≤ 'Z') :=
        fun b => forall_byte (by decide) b
      exact key byte (by simpa [lower] using hlower)
    rw [digitChar_of_toDigit (by omega) h hcapital]
    rfl
  · cases h

theorem parseIp6Arpa_eq_some {text : List Char} {ip : Ipv6Addr} :
    parseIp6Arpa text = some ip ↔ (text.splitOn '.').mapM parseNibble = some (nibbles ip) := by
  rw [parseIp6Arpa]
  constructor
  · intro h
    split at h
    · rename_i digits hmap
      split_ifs at h with hlen
      have hlt : ∀ d ∈ digits, d < 16 := by
        intro d hd
        have hmem : some d ∈ (text.splitOn '.').map parseNibble := by
          rw [mapM_eq_some_iff.mp hmap]
          exact List.mem_map_of_mem hd
        obtain ⟨label, -, hlabel⟩ := List.mem_map.mp hmem
        exact parseNibble_lt hlabel
      obtain ⟨ip', hip', hnibbles⟩ := ofSegments_packSegments hlen hlt
      rw [hip', Option.some_inj] at h
      rw [hmap, ← h, hnibbles]
    · cases h
  · intro h
    rw [h]
    simp only
    rw [if_pos (nibbles_length ip)]
    exact ofSegments_nibbles ip

/-- Text that ends with a zone, without its last dot. -/
theorem stripped_zone {cs body p q : List Char} :
    (∃ text, stripSuffix? ['.'] cs = some text ∧
      stripSuffix? ('.' :: (p ++ '.' :: q)) text = some body) ↔
      cs = body ++ '.' :: (p ++ '.' :: (q ++ ['.'])) := by
  constructor
  · rintro ⟨text, hdot, hzone⟩
    rw [stripSuffix?_eq_some.mp hdot, stripSuffix?_eq_some.mp hzone]
    simp
  · intro h
    refine ⟨body ++ '.' :: (p ++ '.' :: q), stripSuffix?_eq_some.mpr ?_,
      stripSuffix?_eq_some.mpr rfl⟩
    rw [h]
    simp

theorem reverseAddr_v4 {n : Name} {ip : Ipv4Addr} : n.reverseAddr = some (.v4 ip) ↔
    ∃ octets,
      n.inner.toList = octets ++ '.' :: ("in-addr".toList ++ '.' :: ("arpa".toList ++ ['.'])) ∧
      parseInAddrArpa octets = some ip := by
  rw [reverseAddr]
  constructor
  · intro h
    split at h
    · cases h
    · rename_i body hdot
      split at h
      · rename_i octets hzone
        rw [Option.map_eq_some_iff] at h
        obtain ⟨ip', hparse, hip⟩ := h
        cases hip
        exact ⟨octets, stripped_zone.mp ⟨body, hdot, hzone⟩, hparse⟩
      · split at h
        · rw [Option.map_eq_some_iff] at h
          obtain ⟨ip', -, hip⟩ := h
          cases hip
        · cases h
  · rintro ⟨octets, htext, hparse⟩
    obtain ⟨body, hdot, hzone⟩ := stripped_zone.mpr htext
    rw [hdot]
    simp only
    have hzone' : stripSuffix? ".in-addr.arpa".toList body = some octets := hzone
    rw [hzone']
    simp only
    rw [hparse]
    rfl

theorem reverseAddr_v6 {n : Name} {ip : Ipv6Addr} : n.reverseAddr = some (.v6 ip) ↔
    ∃ text, n.inner.toList = text ++ '.' :: ("ip6".toList ++ '.' :: ("arpa".toList ++ ['.'])) ∧
      parseIp6Arpa text = some ip := by
  rw [reverseAddr]
  constructor
  · intro h
    split at h
    · cases h
    · rename_i body hdot
      split at h
      · rw [Option.map_eq_some_iff] at h
        obtain ⟨ip', -, hip⟩ := h
        cases hip
      · split at h
        · rename_i text hzone
          rw [Option.map_eq_some_iff] at h
          obtain ⟨ip', hparse, hip⟩ := h
          cases hip
          exact ⟨text, stripped_zone.mp ⟨body, hdot, hzone⟩, hparse⟩
        · cases h
  · rintro ⟨text, htext, hparse⟩
    obtain ⟨body, hdot, hzone⟩ := stripped_zone.mpr htext
    have hzone' : stripSuffix? ".ip6.arpa".toList body = some text := hzone
    -- The last label but one is `ip6`, so the other zone is not stripped.
    have hother : stripSuffix? ".in-addr.arpa".toList body = none := by
      rw [stripSuffix?_eq_some.mp hzone, stripSuffix?, if_neg]
      intro h
      have hsuffix := List.isSuffixOf_iff_suffix.mp h
      have hlong : ".ip6.arpa".toList <:+ text ++ ".ip6.arpa".toList := ⟨text, rfl⟩
      have := List.suffix_of_suffix_length_le hlong hsuffix (by decide)
      revert this
      decide
    rw [hdot]
    simp only
    rw [hother]
    simp only
    rw [hzone']
    simp only
    rw [hparse]
    rfl

/-- A name is recognized as an address if its labels before the zone are read as the
parts of that address. -/
theorem reverseAddr_v4_iff {n : Name} {ip : Ipv4Addr} : n.reverseAddr = some (.v4 ip) ↔
    ∃ ps, n.labels.map asChars = ps ++ zone (.v4 ip) ∧
      ps.map parseOctet = [ip.d, ip.c, ip.b, ip.a].map some := by
  have hzone : zone (.v4 ip) = ["in-addr".toList, "arpa".toList] := rfl
  rw [reverseAddr_v4, hzone]
  constructor
  · rintro ⟨octets, htext, hparse⟩
    exact ⟨_, pieces_of_toList (by decide) (by decide) htext,
      mapM_eq_some_iff.mp (parseInAddrArpa_eq_some.mp hparse)⟩
  · rintro ⟨ps, hlabels, hparse⟩
    have hne : ps ≠ [] := by
      rintro rfl
      simp at hparse
    obtain ⟨octets, htext, rfl⟩ := (toList_eq_zone_iff (by decide) (by decide) hne).mp hlabels
    exact ⟨octets, htext, parseInAddrArpa_eq_some.mpr (mapM_eq_some_iff.mpr hparse)⟩

theorem reverseAddr_v6_iff {n : Name} {ip : Ipv6Addr} : n.reverseAddr = some (.v6 ip) ↔
    ∃ ps, n.labels.map asChars = ps ++ zone (.v6 ip) ∧
      ps.map parseNibble = (nibbles ip).map some := by
  have hzone : zone (.v6 ip) = ["ip6".toList, "arpa".toList] := rfl
  rw [reverseAddr_v6, hzone]
  constructor
  · rintro ⟨text, htext, hparse⟩
    exact ⟨_, pieces_of_toList (by decide) (by decide) htext,
      mapM_eq_some_iff.mp (parseIp6Arpa_eq_some.mp hparse)⟩
  · rintro ⟨ps, hlabels, hparse⟩
    have hne : ps ≠ [] := by
      rintro rfl
      have hlen := congrArg List.length hparse
      rw [List.length_map, List.length_map, nibbles_length] at hlen
      simp at hlen
    obtain ⟨text, htext, rfl⟩ := (toList_eq_zone_iff (by decide) (by decide) hne).mp hlabels
    exact ⟨text, htext, parseIp6Arpa_eq_some.mpr (mapM_eq_some_iff.mpr hparse)⟩

/-! ### Round trips -/

/-- The name of an address is the one with the labels of the address. -/
theorem reverseQuery_eq_ok_iff {ip : IpAddr} {n : Name} :
    reverseQuery ip = .ok n ↔ n.labels.map asChars = addrLabels ip ++ zone ip := by
  obtain ⟨n', hn', htext⟩ := reverseQuery_ok ip
  have hne : addrLabels ip ++ zone ip ≠ [] := by
    cases ip <;> simp [zone]
  have hdot : ∀ p ∈ addrLabels ip ++ zone ip, '.' ∉ p := by
    intro p hp
    exact (plain_pieces ip p hp).dot_not_mem
  rw [hn', Except.ok.injEq]
  constructor
  · rintro rfl
    have hnil : n'.labels ≠ [] := by
      intro hnil
      obtain ⟨p, ps, hps⟩ := List.exists_cons_of_ne_nil hne
      rw [n'.toList_eq, hnil, hps] at htext
      have hp : p ≠ [] := (plain_pieces ip p (hps ▸ List.mem_cons_self)).ne_nil
      have hlen := congrArg List.length htext
      have := List.length_pos_iff.mpr hp
      simp [canonText] at hlen
      omega
    refine terminated_injective (dot_not_mem_labels n') hdot ?_
    rw [← htext, n'.toList_eq, canonText_of_ne_nil hnil]
  · intro hlabels
    refine ext_toList ?_
    have hnil : n.labels ≠ [] := by
      intro hnil
      rw [hnil] at hlabels
      exact hne hlabels.symm
    rw [htext, n.toList_eq, canonText_of_ne_nil hnil, hlabels]

theorem parseOctet_toDigits (b : UInt8) : parseOctet (Nat.toDigits 10 b.toNat) = some b := by
  have hdigits : ∀ c ∈ Nat.toDigits 10 b.toNat, isDigit 10 c = true :=
    isDigit_of_mem_toDigits (by omega) (by omega) b.toNat
  have hplus : '+' ∉ Nat.toDigits 10 b.toNat := by
    intro h
    exact absurd (hdigits _ h) (by decide)
  have hparse : parseUnsigned 256 (Nat.toDigits 10 b.toNat) = some b.toNat :=
    (parseUnsigned_eq_some hplus).mpr
      ⟨Nat.toDigits_ne_nil, hdigits, digitsValue_toDigits (by omega) (by omega) _, b.toNat_lt⟩
  rw [parseOctet, hparse, Option.map_some, UInt8.ofNat_toNat]

/-- **The name of an address is recognized as that address**: building it never
panics. -/
theorem reverseAddr_reverseQuery (ip : IpAddr) :
    ∃ n, reverseQuery ip = .ok n ∧ n.reverseAddr = some ip := by
  obtain ⟨n, hn, -⟩ := reverseQuery_ok ip
  refine ⟨n, hn, ?_⟩
  have hlabels := reverseQuery_eq_ok_iff.mp hn
  cases ip with
  | v4 ip =>
    refine reverseAddr_v4_iff.mpr ⟨_, hlabels, ?_⟩
    rw [addrLabels, List.map_map]
    exact List.map_congr_left (fun b _ => parseOctet_toDigits b)
  | v6 ip =>
    refine reverseAddr_v6_iff.mpr ⟨_, hlabels, ?_⟩
    rw [addrLabels, List.map_map]
    exact List.map_congr_left (fun d hd => parseNibble_digitChar (nibbles_lt ip d hd))

/-- A name of four decimal octets under `in-addr.arpa`, some octet of it with a zero in
front. -/
def PaddedReverse (n : Name) : Prop :=
  ∃ ps, n.labels.map asChars = ps ++ ["in-addr".toList, "arpa".toList] ∧ ps.length = 4 ∧
    (∀ p ∈ ps, (∀ c ∈ p, isDigit 10 c = true) ∧ digitsValue 10 p < 256) ∧
    ∃ p ∈ ps, p.head? = some '0' ∧ 1 < p.length

/-- A label of a name has no plus sign, so an octet is read from its digits alone. -/
theorem parseOctet_eq_some {l : Bytes} {b : UInt8} (hraw : RawLabel l) :
    parseOctet (asChars l) = some b ↔
      (∀ c ∈ asChars l, isDigit 10 c = true) ∧ digitsValue 10 (asChars l) < 256 ∧
        UInt8.ofNat (digitsValue 10 (asChars l)) = b := by
  have hplus : '+' ∉ asChars l := by
    intro h
    obtain ⟨byte, hbyte, hchar⟩ := List.mem_map.mp h
    have key : ∀ x : UInt8, labelByte x = true → Char.ofUInt8 x ≠ '+' :=
      fun x => forall_byte (by decide) x
    exact key byte (hraw.labelByte_of_mem byte hbyte) hchar
  have hne : asChars l ≠ [] := by
    intro h
    exact hraw.ne_nil (List.map_eq_nil_iff.mp h)
  rw [parseOctet, Option.map_eq_some_iff]
  constructor
  · rintro ⟨v, hv, rfl⟩
    obtain ⟨-, hdigits, rfl, hlt⟩ := (parseUnsigned_eq_some hplus).mp hv
    exact ⟨hdigits, hlt, rfl⟩
  · rintro ⟨hdigits, hlt, rfl⟩
    exact ⟨_, (parseUnsigned_eq_some hplus).mpr ⟨hne, hdigits, rfl, hlt⟩, rfl⟩

theorem plain_of_labels {n : Name} {ps qs : List (List Char)}
    (h : n.labels.map asChars = ps ++ qs) {p : List Char} (hp : p ∈ ps) : Plain p := by
  have hmem : p ∈ n.labels.map asChars := h ▸ List.mem_append_left _ hp
  obtain ⟨l, hl, rfl⟩ := List.mem_map.mp hmem
  exact ⟨l, rfl, n.labels_canon.raw l hl, n.labels_canon.lower_eq l hl⟩

/-- A padded name is recognized, and is not the name of its address. -/
theorem not_exact_of_padded {n : Name} (h : PaddedReverse n) :
    ∃ ip, n.reverseAddr = some ip ∧ reverseQuery ip ≠ .ok n := by
  obtain ⟨ps, hlabels, hlen, hoctets, p, hp, hhead, hlong⟩ := h
  have hread : ∀ q ∈ ps, parseOctet q = some (UInt8.ofNat (digitsValue 10 q)) := by
    intro q hq
    obtain ⟨l, rfl, hraw, -⟩ := plain_of_labels hlabels hq
    obtain ⟨hdigits, hlt⟩ := hoctets _ hq
    exact (parseOctet_eq_some hraw).mpr ⟨hdigits, hlt, rfl⟩
  obtain ⟨d, c, b, a, rfl⟩ : ∃ d c b a, ps = [d, c, b, a] := by
    obtain ⟨d, rest, rfl⟩ := List.exists_cons_of_length_eq_add_one hlen
    obtain ⟨c, b, a, rfl⟩ := List.length_eq_three.mp (Nat.succ.inj hlen)
    exact ⟨d, c, b, a, rfl⟩
  simp only [List.forall_mem_cons] at hread
  obtain ⟨hd, hc, hb, ha, -⟩ := hread
  refine ⟨.v4 ⟨UInt8.ofNat (digitsValue 10 a), UInt8.ofNat (digitsValue 10 b),
    UInt8.ofNat (digitsValue 10 c), UInt8.ofNat (digitsValue 10 d)⟩,
    reverseAddr_v4_iff.mpr ⟨_, hlabels, ?_⟩, ?_⟩
  · simp only [List.map_cons, List.map_nil, hd, hc, hb, ha]
  · intro hquery
    -- The octet with the zero in front is not how its value is printed.
    have hps := List.append_cancel_right (hlabels.symm.trans (reverseQuery_eq_ok_iff.mp hquery))
    rw [hps] at hp
    obtain ⟨v, -, hv⟩ := List.mem_map.mp hp
    exact toDigits_ne_of_padded hhead hlong _ hv

/-- An octet without a zero in front is how its value is printed. -/
theorem eq_toDigits_of_parseOctet {l : Bytes} {b : UInt8} (hraw : RawLabel l)
    (hparse : parseOctet (asChars l) = some b)
    (hzero : (asChars l).head? = some '0' → (asChars l).length = 1) :
    asChars l = Nat.toDigits 10 b.toNat := by
  obtain ⟨hdigits, hlt, rfl⟩ := (parseOctet_eq_some hraw).mp hparse
  have hne : asChars l ≠ [] := by
    intro hnil
    exact hraw.ne_nil (List.map_eq_nil_iff.mp hnil)
  rw [UInt8.toNat_ofNat_of_lt' hlt, toDigits_digitsValue hdigits hne hzero]

/-- A recognized IPv4 name is the one that is asked for, if no octet is padded. -/
theorem reverseQuery_of_v4 {n : Name} {ip : Ipv4Addr} (haddr : n.reverseAddr = some (.v4 ip))
    (hpadded : ¬ PaddedReverse n) : reverseQuery (.v4 ip) = .ok n := by
  obtain ⟨ps, hlabels, hparse⟩ := reverseAddr_v4_iff.mp haddr
  rw [reverseQuery_eq_ok_iff, hlabels, addrLabels]
  congr 1
  have hlen : ps.length = 4 := by simpa using congrArg List.length hparse
  have hoctets : ∀ p ∈ ps, (∀ c ∈ p, isDigit 10 c = true) ∧ digitsValue 10 p < 256 := by
    intro p hp
    have hmem : parseOctet p ∈ ps.map parseOctet := List.mem_map_of_mem hp
    rw [hparse] at hmem
    obtain ⟨b, -, hb⟩ := List.mem_map.mp hmem
    obtain ⟨l, rfl, hraw, -⟩ := plain_of_labels hlabels hp
    obtain ⟨hdigits, hlt, -⟩ := (parseOctet_eq_some hraw).mp hb.symm
    exact ⟨hdigits, hlt⟩
  refine eq_map_of_map_eq (f := parseOctet) ?_ hparse
  intro p hp b hb
  obtain ⟨l, rfl, hraw, -⟩ := plain_of_labels hlabels hp
  refine eq_toDigits_of_parseOctet hraw hb ?_
  intro hhead
  have hpos : 0 < (asChars l).length := by
    rw [asChars, List.length_map]
    exact List.length_pos_iff.mpr hraw.ne_nil
  by_contra hone
  exact hpadded ⟨ps, hlabels, hlen, hoctets, _, hp, hhead, by omega⟩

/-- A recognized IPv6 name is the one that is asked for. -/
theorem reverseQuery_of_v6 {n : Name} {ip : Ipv6Addr} (haddr : n.reverseAddr = some (.v6 ip)) :
    reverseQuery (.v6 ip) = .ok n := by
  obtain ⟨ps, hlabels, hparse⟩ := reverseAddr_v6_iff.mp haddr
  rw [reverseQuery_eq_ok_iff, hlabels, addrLabels]
  congr 1
  refine eq_map_of_map_eq (f := parseNibble) ?_ hparse
  intro p hp d hd
  obtain ⟨l, rfl, hraw, hlower⟩ := plain_of_labels hlabels hp
  exact eq_digitChar_of_parseNibble hraw hlower hd

/-- **Reverse names are recognized exactly, but for padded octets.** -/
theorem reverse_names_exact_iff (n : Name) :
    (∀ ip, n.reverseAddr = some ip → reverseQuery ip = .ok n) ↔ ¬ PaddedReverse n := by
  constructor
  · intro hexact hpadded
    obtain ⟨ip, haddr, hquery⟩ := not_exact_of_padded hpadded
    exact hquery (hexact ip haddr)
  · intro hpadded ip haddr
    cases ip with
    | v4 ip => exact reverseQuery_of_v4 haddr hpadded
    | v6 ip => exact reverseQuery_of_v6 haddr

/-- `001.0.0.127.in-addr.arpa` is recognized as `127.0.0.1`, whose name it is not. -/
theorem padded_octet_recognized : ∃ n, fromStr "001.0.0.127.in-addr.arpa" = .ok n ∧
    n.reverseAddr = some (.v4 ⟨127, 0, 0, 1⟩) ∧
    reverseQuery (.v4 ⟨127, 0, 0, 1⟩) ≠ .ok n := by
  have heval : (fromStr "001.0.0.127.in-addr.arpa").toOption.any
      (fun n => n.reverseAddr = some (.v4 ⟨127, 0, 0, 1⟩) ∧
        (reverseQuery (.v4 ⟨127, 0, 0, 1⟩)).toOption ≠ some n) = true := by
    decide
  obtain ⟨n, hn, hsample⟩ := exists_ok_of_any heval
  obtain ⟨haddr, hquery⟩ := of_decide_eq_true hsample
  refine ⟨n, hn, haddr, ?_⟩
  intro hsame
  rw [hsame] at hquery
  exact hquery rfl

end Name

end Codec

/-
Reverse names (`Name::reverse_addr`).

A reverse name spells an address backwards under `in-addr.arpa` or `ip6.arpa`.
-/
import Sagittarius.Name
import Sagittarius.IpText

open BigEndian Delimited Numeral

namespace Codec

/-- `str::strip_suffix`. -/
def stripSuffix? (suffix cs : List Char) : Option (List Char) :=
  if suffix.isSuffixOf cs then some (cs.take (cs.length - suffix.length)) else none

namespace Name

/-- `Name::parse_in_addr_arpa`: the octets in reverse, exactly four of them. -/
def parseInAddrArpa (octets : List Char) : Option Ipv4Addr :=
  match (octets.splitOn '.').mapM (fun label => (parseUnsigned 256 label).map UInt8.ofNat) with
  | some [d, c, b, a] => some ⟨a, b, c, d⟩
  | _ => none

/-- One label of an `ip6.arpa` name: a single hexadecimal digit. -/
def parseNibble (label : List Char) : Option Nat :=
  match asBytes label with
  | [byte] => toDigit 16 (Char.ofUInt8 byte)
  | _ => none

/-- Pack nibbles, most significant first, into 16-bit segments. -/
def packSegments : List Nat → List UInt16
  | a :: b :: c :: d :: rest =>
    UInt16.ofNat (((a * 16 + b) * 16 + c) * 16 + d) :: packSegments rest
  | _ => []

/-- `Name::parse_ip6_arpa`: the nibbles in reverse, exactly 32 of them. -/
def parseIp6Arpa (nibbles : List Char) : Option Ipv6Addr :=
  match (nibbles.splitOn '.').mapM parseNibble with
  | some digits =>
    if digits.length = 32 then IpText.ofSegments (packSegments digits.reverse) else none
  | none => none

/-- `Name::reverse_addr`. -/
def reverseAddr (n : Name) : Option IpAddr :=
  match stripSuffix? ['.'] n.inner.toList with
  | none => none
  | some body =>
    match stripSuffix? ".in-addr.arpa".toList body with
    | some octets => (parseInAddrArpa octets).map IpAddr.v4
    | none =>
      match stripSuffix? ".ip6.arpa".toList body with
      | some nibbles => (parseIp6Arpa nibbles).map IpAddr.v6
      | none => none

end Name

end Codec

/-
IP addresses as the standard library represents them.

An IPv4 address is four octets, an IPv6 address eight 16-bit segments; `octets`
is the network-order byte string of each.
-/
import Sagittarius.BigEndian

open BigEndian

/-- `std::net::Ipv4Addr`. -/
structure Ipv4Addr where
  a : UInt8
  b : UInt8
  c : UInt8
  d : UInt8
  deriving DecidableEq, Repr

/-- `Ipv4Addr::octets`. -/
def Ipv4Addr.octets (ip : Ipv4Addr) : Bytes := [ip.a, ip.b, ip.c, ip.d]

/-- `std::net::Ipv6Addr`, as its eight segments. -/
structure Ipv6Addr where
  segments : List UInt16
  length_eq : segments.length = 8
  deriving DecidableEq, Repr

/-- `Ipv6Addr::octets`. -/
def Ipv6Addr.octets (ip : Ipv6Addr) : Bytes := ip.segments.flatMap be16

/-- `std::net::IpAddr`. -/
inductive IpAddr where
  | v4 (ip : Ipv4Addr)
  | v6 (ip : Ipv6Addr)
  deriving DecidableEq, Repr

/-- `std::net::SocketAddr`; the flow label of an IPv6 socket address is never
set here. -/
inductive SocketAddr where
  | v4 (ip : Ipv4Addr) (port : UInt16)
  | v6 (ip : Ipv6Addr) (port : UInt16) (scopeId : UInt32)
  deriving DecidableEq, Repr

/-- `SocketAddr::new`. -/
def SocketAddr.new (ip : IpAddr) (port : UInt16) : SocketAddr :=
  match ip with
  | .v4 ip => .v4 ip port
  | .v6 ip => .v6 ip port 0

theorem Ipv6Addr.octets_length (ip : Ipv6Addr) : ip.octets.length = 16 := by
  have h := ip.length_eq
  simp [octets, List.length_flatMap, h]

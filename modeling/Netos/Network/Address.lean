import Netos.Core.Config

/-!
# Addresses and the topology

`network/address.h`, `network/address.cpp`, `network/topology.h` and `network/topology.cpp`. A
neighbor is known by host and port; its address is zero until it is resolved, which happens when
something is first sent to it. `getaddrinfo` is a parameter: a `Resolver` answers with an IPv4
address, as the hints of `resolve_address` demand, or not at all.
-/

namespace Netos

open CString

/-- `sockaddr_in`: the port and the address as numbers, that is after `ntohs` and `ntohl`. The
default is the zeroed structure. -/
structure SockaddrIn where
  /-- The address family, zero while the address is not resolved. -/
  sin_family : UInt16 := 0
  /-- The port. -/
  sin_port : UInt16 := 0
  /-- The address. -/
  sin_addr : UInt32 := 0
deriving DecidableEq, Repr

/-- The family of IPv4 addresses. -/
def afInet : UInt16 := 2

/-- `NeighborAddress`. -/
structure NeighborAddress where
  /-- The host name. -/
  host : Bytes
  /-- The port. -/
  port : Int32 := 0
  /-- The resolved address, or zero. -/
  addr : SockaddrIn := {}
deriving DecidableEq

/-- `getaddrinfo` on a host and a service, with hints for IPv4. -/
structure Resolver where
  /-- The address found, if any. -/
  getaddrinfo : Bytes → Bytes → Option SockaddrIn
  /-- Only IPv4 addresses are asked for. -/
  family : ∀ {host service addr}, getaddrinfo host service = some addr → addr.sin_family = afInet

/-- `resolve_address`. -/
def resolveAddress (R : Resolver) (host : Bytes) (port : Int32) : Option SockaddrIn :=
  R.getaddrinfo (cStr host) (intToString port.toInt)

/-- `addr_to_string`: dotted octets, a colon and the port. -/
def addrToString (addr : SockaddrIn) : Bytes :=
  let octet (i : ℕ) : Bytes := natToString (addr.sin_addr.toNat / 256 ^ i % 256)
  octet 3 ++ ascii "." ++ octet 2 ++ ascii "." ++ octet 1 ++ ascii "." ++ octet 0 ++
    ascii ":" ++ natToString addr.sin_port.toNat

/-- The text of an address determines the address and the port. -/
theorem addrToString_inj {a b : SockaddrIn} :
    addrToString a = addrToString b ↔ a.sin_addr = b.sin_addr ∧ a.sin_port = b.sin_port := by
  have hshape : ∀ x : SockaddrIn, addrToString x =
      (((natToString (x.sin_addr.toNat / 256 ^ 3 % 256) ++
        46 :: natToString (x.sin_addr.toNat / 256 ^ 2 % 256)) ++
          46 :: natToString (x.sin_addr.toNat / 256 ^ 1 % 256)) ++
            46 :: natToString (x.sin_addr.toNat / 256 ^ 0 % 256)) ++
              58 :: natToString x.sin_port.toNat := fun x => by
    have hdot : ascii "." = [46] := rfl
    have hcolon : ascii ":" = [58] := rfl
    unfold addrToString
    simp only [hdot, hcolon, List.append_assoc, List.singleton_append]
  have hdot : isDigit 46 = false := by decide
  have hcolon : isDigit 58 = false := by decide
  rw [hshape, hshape, append_natToString_inj hcolon, append_natToString_inj hdot,
    append_natToString_inj hdot, append_natToString_inj hdot, natToString_injective.eq_iff,
    UInt16.toNat_inj]
  refine and_congr_left fun _ => ⟨fun h => ?_, fun h => by rw [h]; exact ⟨⟨⟨rfl, rfl⟩, rfl⟩, rfl⟩⟩
  -- The address is below `256 ^ 4`, so its four octets determine it.
  obtain ⟨⟨⟨h₃, h₂⟩, h₁⟩, h₀⟩ := h
  have ha := a.sin_addr.toNat_lt
  have hb := b.sin_addr.toNat_lt
  refine UInt32.toNat_inj.mp ?_
  omega

/-- `same_address`: the family is not compared. -/
def sameAddress (a b : SockaddrIn) : Bool := a.sin_addr == b.sin_addr && a.sin_port == b.sin_port

/-- `Topology`. -/
structure Topology where
  /-- The neighbors, in the order of the configuration. -/
  neighbors : List NeighborAddress

/-- `build_topology`: no neighbor is resolved yet. -/
def buildTopology (neighbors : List NeighborConfig) : Topology :=
  ⟨neighbors.map fun n => { host := n.host, port := n.port }⟩

/-- A resolved address is not the zeroed one. -/
theorem resolveAddress_family {R : Resolver} {host : Bytes} {port : Int32} {addr : SockaddrIn}
    (h : resolveAddress R host port = some addr) : addr.sin_family ≠ 0 := by
  have hfamily : addr.sin_family = afInet := R.family h
  rw [hfamily]
  decide

end Netos

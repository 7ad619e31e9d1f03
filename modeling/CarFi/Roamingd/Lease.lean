import Mathlib.Algebra.Group.Nat.Defs
import Mathlib.Data.List.Basic

/-!
# DHCP leases

A lease as `sd-dhcp-lease.c` keeps it, the messages of a DHCP server that carry one, and the
addresses and routes that belong to it.
-/
namespace CarFi.Roamingd

/-- An IPv4 address, in host order. -/
abbrev InAddr := UInt32

/-- `in_addr_netmask_to_prefixlen` -/
def prefixlenOf (netmask : InAddr) : Nat :=
  32 - ((List.range 32).takeWhile fun i => netmask.toNat / 2 ^ i % 2 = 0).length

/-- `in_addr_default_subnet_mask`: by the class of the address. -/
def defaultSubnetMask (address : InAddr) : Option InAddr :=
  if address < 0x80000000 then some 0xff000000
  else if address < 0xc0000000 then some 0xffff0000
  else if address < 0xe0000000 then some 0xffffff00
  else none

/-- A static route of a lease. -/
structure StaticRoute where
  dst : InAddr
  dstPrefixlen : Nat
  gateway : InAddr
  deriving DecidableEq, Repr

/-- The options of a message that go into a lease. An address option that is missing is `0`. -/
structure Options where
  address : InAddr
  subnetMask : Option InAddr := none
  router : InAddr := 0
  serverAddress : InAddr := 0
  dns : List InAddr := []
  staticRoutes : List StaticRoute := []
  lifetime : UInt32 := 0
  t1 : UInt32 := 0
  t2 : UInt32 := 0
  deriving DecidableEq, Repr

/-- A lease that has passed the checks of the client. -/
structure Lease where
  address : InAddr
  subnetMask : InAddr
  router : InAddr
  serverAddress : InAddr
  dns : List InAddr
  staticRoutes : List StaticRoute
  lifetime : UInt32
  t1 : UInt32
  t2 : UInt32
  address_ne : address ≠ 0
  server_ne : serverAddress ≠ 0
  lifetime_ne : lifetime ≠ 0
  deriving DecidableEq, Repr

/-- The check on the address, the server and the lifetime, once the netmask is known. -/
def Options.check (o : Options) (subnetMask : InAddr) : Option Lease :=
  if h : o.address ≠ 0 ∧ o.serverAddress ≠ 0 ∧ o.lifetime ≠ 0 then
    some { address := o.address, subnetMask := subnetMask, router := o.router
           serverAddress := o.serverAddress, dns := o.dns, staticRoutes := o.staticRoutes
           lifetime := o.lifetime, t1 := o.t1, t2 := o.t2
           address_ne := h.1, server_ne := h.2.1, lifetime_ne := h.2.2 }
  else none

/-- The lease of an offer: a missing netmask is filled in. -/
def Options.offered (o : Options) : Option Lease :=
  match o.subnetMask with
  | some mask => o.check mask
  | none => (defaultSubnetMask o.address).bind o.check

/-- The lease of an acknowledgement: here a netmask of `0.0.0.0` is filled in as well. -/
def Options.acknowledged (o : Options) : Option Lease :=
  match o.subnetMask with
  | some mask => if mask = 0 then (defaultSubnetMask o.address).bind o.check else o.check mask
  | none => (defaultSubnetMask o.address).bind o.check

/-- What a message of the server says. -/
inductive Body where
  | offer (options : Options)
  | ack (options : Options)
  | nak
  | forcerenew
  | other
  deriving DecidableEq, Repr

structure Message where
  xid : UInt32
  body : Body
  deriving DecidableEq, Repr

/-! ## Addresses and routes -/

/-- An address of either family. -/
inductive InAddrUnion where
  | inet (address : InAddr)
  | inet6 (address : BitVec 128)
  deriving DecidableEq, Repr

/-- An address of an interface. -/
structure Addr where
  inAddr : InAddrUnion
  prefixlen : Nat
  deriving DecidableEq, Repr

/-- A route, as far as adding and removing it name it. -/
structure Route where
  dst : InAddr
  dstPrefixlen : Nat
  gateway : InAddr
  deriving DecidableEq, Repr

namespace Lease

def addr (l : Lease) : Addr := ⟨.inet l.address, prefixlenOf l.subnetMask⟩

/-- The route to the gateway itself. -/
def hostRoute (l : Lease) : Route := ⟨l.router, 32, 0⟩

def defaultRoute (l : Lease) : Route := ⟨0, 0, l.router⟩

def staticRouteOf (r : StaticRoute) : Route := ⟨r.dst, r.dstPrefixlen, r.gateway⟩

/-- The routes of a lease: those of its router, if it has one, and its static ones. -/
def routes (l : Lease) : List Route :=
  (if l.router = 0 then [] else [l.hostRoute, l.defaultRoute]) ++ l.staticRoutes.map staticRouteOf

end Lease

end CarFi.Roamingd

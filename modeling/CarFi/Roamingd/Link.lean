import CarFi.Roamingd.Client

/-!
# Links

The part of `roamingd-link.c`, `roamingd-address.c` and `roamingd-dhcp4.c` that runs for the
interfaces of the daemon: DHCP over IPv4 with its routes, no static addresses or routes, no
link-local addresses and no router advertisements.
-/
namespace CarFi.Roamingd

inductive LinkState where
  | pending | enslaving | settingAddresses | settingRoutes | configured | unmanaged | failed
  | linger
  deriving DecidableEq, Repr

/-- The requests to the kernel that are answered later. -/
inductive Request where
  | newAddr (a : Addr)
  | delAddr (a : Addr)
  | newRoute (r : Route)
  | delRoute (r : Route)
  | setLink
  deriving DecidableEq, Repr

/-- The failures that are logged with an error number. -/
inductive Failure where
  | clientFailed | noLeaseAcquired | noLeaseRenewed | updateAddress | setAddress | setRoute
  | hostRoute | routes | staticRoute | acquireLease | sendUp | bringUp | dropRoute | dropAddress
  deriving DecidableEq, Repr

/-- What the daemon writes to its log about an interface. -/
inductive LogMsg where
  | linkAdded | upToDate | unmanaged | bringingUp | failed | configured
  | gainedCarrier | lostCarrier | linkRemoved | linkReadded
  | acquiringLease | leaseLost
  | address (l : Lease)
  | dhcpServer (a : InAddr)
  | dnsServer (i : Nat) (a : InAddr)
  | failure (f : Failure) (errno : Int)
  deriving DecidableEq, Repr

/-- An address the link knows of. It is not ready while the kernel calls it tentative or
deprecated. -/
structure AddrEntry where
  addr : Addr
  ready : Bool
  deriving DecidableEq, Repr

/-- `Link`. The last three fields stand for the rest of the world: the requests without a
reply yet, and what has been requested and logged since the event loop was last entered. -/
structure Link where
  state : LinkState := .pending
  managed : Bool
  mac : Nat := 0
  carrier : Bool := false
  staticConfigured : Bool := false
  dhcp4Configured : Bool := false
  dhcp4Messages : Nat := 0
  dhcpLease : Option Lease := none
  addresses : List AddrEntry := []
  addressesForeign : List AddrEntry := []
  pending : List Request := []
  sent : List Request := []
  out : List LogMsg := []
  deriving DecidableEq, Repr

/-- An interface: its link with the DHCP client. -/
abbrev Iface := Attached Link

/-- The states in which DHCP events and most replies are ignored. -/
def LinkState.isDown (s : LinkState) : Bool := s = .failed || s = .linger

namespace Link

def log (m : LogMsg) (l : Link) : Link := { l with out := l.out ++ [m] }

def request (r : Request) (l : Link) : Link :=
  { l with pending := l.pending ++ [r], sent := l.sent ++ [r] }

/-- A DHCP route, of which the reply is counted. -/
def requestRoute (r : Route) (l : Link) : Link :=
  { l.request (.newRoute r) with dhcp4Messages := l.dhcp4Messages + 1 }

/-! ## Addresses -/

/-- `address_add`: a foreign address is taken over as it is, a new one is tentative. -/
def addressAdd (a : Addr) (l : Link) : Link :=
  if l.addresses.any (·.addr = a) then l
  else
    match l.addressesForeign.find? (·.addr = a) with
    | some e =>
      { l with
        addresses := l.addresses ++ [e]
        addressesForeign := l.addressesForeign.filter (·.addr ≠ a) }
    | none => { l with addresses := l.addresses ++ [⟨a, false⟩] }

/-- `address_configure` -/
def addressConfigure (io : Io) (a : Addr) (l : Link) : Int × Link :=
  if io.result .addressConfigure < 0 then (io.result .addressConfigure, l)
  else (0, (l.request (.newAddr a)).addressAdd a)

/-- `link_check_ready`, with the assertion of `link_enter_configured`. -/
def checkReady (l : Link) : Except Abort Link :=
  if l.managed ∧ l.staticConfigured ∧ l.dhcp4Configured ∧ l.addresses.all (·.ready) ∧
      l.state ≠ .configured then
    if l.state = .settingRoutes then .ok { l.log .configured with state := .configured }
    else .error .enterConfigured
  else .ok l

/-- `address_get`: own addresses come first. -/
def addressGet (a : Addr) (l : Link) : Option AddrEntry :=
  (l.addresses.find? (·.addr = a)).or (l.addressesForeign.find? (·.addr = a))

/-- The flags of an address, changed where the address is kept. -/
def setReady (a : Addr) (ready : Bool) (l : Link) : Link :=
  let set (es : List AddrEntry) := es.map fun e => if e.addr = a then ⟨a, ready⟩ else e
  if l.addresses.any (·.addr = a) then { l with addresses := set l.addresses }
  else { l with addressesForeign := set l.addressesForeign }

/-- The kernel reports an address. -/
def newAddr (a : Addr) (ready : Bool) (l : Link) : Except Abort Link :=
  match l.addressGet a with
  | some e =>
    if ¬e.ready ∧ ready then (l.setReady a ready).checkReady else .ok (l.setReady a ready)
  | none =>
    let l := { l with addressesForeign := l.addressesForeign ++ [⟨a, ready⟩] }
    if ready then l.checkReady else .ok l

/-- The kernel reports that an address is gone. -/
def delAddr (a : Addr) (l : Link) : Except Abort Link :=
  match l.addressGet a with
  | none => .ok l
  | some e =>
    let l :=
      if l.addresses.any (·.addr = a) then
        { l with addresses := l.addresses.filter (·.addr ≠ a) }
      else { l with addressesForeign := l.addressesForeign.filter (·.addr ≠ a) }
    if e.ready then .ok l else l.checkReady

/-! ## Leases -/

/-- The requests by which a lease is given up, with the calls that make them. -/
def removals (lease : Lease) : List (Call × Request) :=
  lease.staticRoutes.mapIdx (fun i r =>
    (Call.removeStaticRoute i, Request.delRoute (Lease.staticRouteOf r))) ++
  (if lease.router = 0 then []
    else [(Call.removeHostRoute, Request.delRoute lease.hostRoute),
      (Call.removeDefaultRoute, Request.delRoute lease.defaultRoute)]) ++
  [(Call.removeAddress, Request.delAddr lease.addr)]

/-- `dhcp_lease_lost`; the result of a removal is not looked at. -/
def leaseLost (io : Io) (lease : Lease) (l : Link) : Link :=
  let l := (removals lease).foldl
    (fun l p => if io.result p.1 < 0 then l else l.request p.2) (l.log .leaseLost)
  { l with dhcpLease := none, dhcp4Configured := false }

/-- The lines written for a new lease. -/
def leaseLines (lease : Lease) : List LogMsg :=
  .address lease :: .dhcpServer lease.serverAddress :: lease.dns.mapIdx .dnsServer

/-- The rest of `link_set_dhcp_routes`, from the `i`-th static route on. -/
def setStaticRoutes (io : Io) : Nat → List StaticRoute → Link → Link
  | _, [], l => l
  | i, r :: rs, l =>
    if io.result (.staticRoute i) < 0 then
      l.log (.failure .staticRoute (io.result (.staticRoute i)))
    else setStaticRoutes io (i + 1) rs (l.requestRoute (Lease.staticRouteOf r))

end Link

namespace Attached

def mapLink (f : Link → Link) (s : Iface) : Iface := { s with userdata := f s.userdata }

def logLink (m : LogMsg) (s : Iface) : Iface := s.mapLink (Link.log m)

/-! ## Failures -/

/-- `link_enter_failed`. The handler of the client is told of the stop, but returns at once in
the state that has been entered. -/
def enterFailed (s : Iface) : Iface :=
  if s.userdata.state.isDown then s
  else sdDhcpClientStop (fun _ s => s) (s.mapLink fun l => { l.log .failed with state := .failed })

/-- The failure of `f` is logged, and the link fails. -/
def failWith (f : Failure) (r : Int) (s : Iface) : Iface :=
  enterFailed (s.logLink (.failure f r))

/-! ## The handler of the client -/

/-- The address of a lease is requested. -/
def updateAddress (io : Io) (lease : Lease) (s : Iface) : Iface :=
  let (r, l) := s.userdata.addressConfigure io lease.addr
  if r < 0 then failWith .updateAddress r s else { s with userdata := l }

/-- `dhcp_lease_renew`, and the failure of the link if there is no lease. -/
def leaseRenew (io : Io) (s : Iface) : Iface :=
  match s.client.getLease with
  | none => failWith .noLeaseRenewed (-eaddrnotavail) s
  | some lease =>
    updateAddress io lease (s.mapLink fun l =>
      { l with dhcp4Configured := false, dhcpLease := some lease })

/-- `dhcp_lease_acquired`, and the failure of the link if there is no lease. -/
def leaseAcquired (io : Io) (s : Iface) : Iface :=
  match s.client.getLease with
  | none => failWith .noLeaseAcquired (-eaddrnotavail) s
  | some lease =>
    updateAddress io lease (s.mapLink fun l =>
      { l with out := l.out ++ Link.leaseLines lease, dhcpLease := some lease })

/-- The loss of the lease, if there is one. -/
def loseLease (io : Io) (s : Iface) : Iface :=
  match s.userdata.dhcpLease with
  | none => s
  | some lease => s.mapLink (Link.leaseLost io lease)

/-- `dhcp4_handler` -/
def dhcp4Handler (io : Io) (e : ClientEvent) (s : Iface) : Iface :=
  if s.userdata.state.isDown then s
  else
    match e with
    | .expired | .stop => loseLease io s
    | .ipChange => leaseAcquired io (loseLease io s)
    | .renew => leaseRenew io s
    | .ipAcquire => leaseAcquired io s
    | .error r => s.logLink (.failure .clientFailed r)

/-! ## Replies -/

/-- `link_set_dhcp_routes` -/
def setDhcpRoutes (io : Io) (s : Iface) : Except Abort Iface :=
  match s.userdata.dhcpLease with
  | none => .error .setDhcpRoutes
  | some lease =>
    let static := Link.setStaticRoutes io 0 lease.staticRoutes
    if lease.router = 0 then .ok (s.mapLink static)
    else if io.result .hostRoute < 0 then
      .ok (s.logLink (.failure .hostRoute (io.result .hostRoute)))
    else
      let s := s.mapLink (Link.requestRoute lease.hostRoute)
      if io.result .defaultRoute < 0 then .ok (failWith .routes (io.result .defaultRoute) s)
      else .ok (s.mapLink fun l => static (l.requestRoute lease.defaultRoute))

/-- An error that is not forgiven. -/
def isError (r forgiven : Int) : Bool := r < 0 && r ≠ -forgiven

/-- `dhcp4_address_handler`: the routes are set even after an error. -/
def addressHandler (io : Io) (r : Int) (s : Iface) : Except Abort Iface :=
  setDhcpRoutes io (if isError r eexist then failWith .setAddress r s else s)

/-- `dhcp4_route_handler` -/
def routeHandler (r : Int) (s : Iface) : Except Abort Iface :=
  match s.userdata.dhcp4Messages with
  | 0 => .error .routeHandler
  | n + 1 =>
    let s := s.mapLink fun l => { l with dhcp4Messages := n }
    let s := if isError r eexist then failWith .setRoute r s else s
    if n = 0 then
      (Link.checkReady { s.userdata with dhcp4Configured := true }).map fun l =>
        { s with userdata := l }
    else .ok s

/-- `link_route_remove_handler`, `link_address_remove_handler` and `link_up_handler`: a failure
is logged while the link is up. -/
def noteFailure (f : Failure) (r forgiven : Int) (s : Iface) : Iface :=
  if s.userdata.state.isDown then s
  else if isError r forgiven then s.logLink (.failure f r)
  else s

/-- The handler of a request gets its reply. -/
def handleReply (io : Io) (r : Int) (s : Iface) : Request → Except Abort Iface
  | .newAddr _ => addressHandler io r s
  | .newRoute _ => routeHandler r s
  | .delRoute _ => .ok (noteFailure .dropRoute r esrch s)
  | .delAddr _ => .ok (noteFailure .dropAddress r eaddrnotavail s)
  | .setLink => .ok (noteFailure .bringUp r 0 s)

end Attached

end CarFi.Roamingd

import CarFi.Roamingd.Lease

/-!
# The DHCP client

`sd-dhcp-client.c`. The client runs inside a program that gave it a callback: what it does
changes the client and, through the callback, the data of the program. The outcome of every
call that can fail, the clock and the random numbers are an argument `io` of each function.
-/
namespace CarFi.Roamingd

/-- The calls whose result decides how a handler goes on. -/
inductive Call where
  | eventNow | addResend | addIo | addExpire | addT2 | addT1
  | bindRaw | bindUdp | sendDiscover | sendRequest
  | configure | linkUp | addressConfigure
  | hostRoute | defaultRoute | staticRoute (i : Nat)
  | removeStaticRoute (i : Nat) | removeHostRoute | removeDefaultRoute | removeAddress
  deriving DecidableEq, Repr

/-- The places that draw a random number. -/
inductive Draw where
  | xid | resend | expire | t2 | t1 | t2Again
  deriving DecidableEq, Repr

/-- What the surroundings answer while one event is handled. A negative result is an error
number. -/
structure Io where
  now : Nat
  random : Draw → UInt32
  result : Call → Int

inductive ClientState where
  | init | initReboot | rebooting | selecting | requesting | bound | renewing | rebinding
  | stopped
  deriving DecidableEq, Repr

inductive Socket where
  | raw
  | udp (address : InAddr)
  deriving DecidableEq, Repr

/-- `sd_dhcp_client`. A timer holds its deadline while it is armed. -/
structure DhcpClient where
  state : ClientState := .init
  fd : Option Socket := none
  receiveMessage : Bool := false
  timeoutResend : Option Nat := none
  timeoutT1 : Option Nat := none
  timeoutT2 : Option Nat := none
  timeoutExpire : Option Nat := none
  lastAddr : InAddr := 0
  xid : UInt32 := 0
  startTime : Nat := 0
  attempt : Nat := 1
  requestSent : Nat := 0
  lease : Option Lease := none
  startDelay : Nat := 0
  deriving DecidableEq, Repr

/-- The events of which the callback is told. -/
inductive ClientEvent where
  | stop | ipAcquire | ipChange | expired | renew
  | error (errno : Int)
  deriving DecidableEq, Repr

/-- The assertions of the daemon that can end it. -/
inductive Abort where
  | leaseTimeouts | setDhcpRoutes | enterConfigured | routeHandler
  deriving DecidableEq, Repr

def einval : Int := 22
def ebusy : Int := 16
def eexist : Int := 17
def esrch : Int := 3
def eaddrnotavail : Int := 99

/-- The client and the data its callback is given. -/
structure Attached (υ : Type) where
  client : DhcpClient
  userdata : υ

/-- `client_initialize` -/
def DhcpClient.reset (c : DhcpClient) : DhcpClient :=
  { c with
    receiveMessage := false, fd := none
    timeoutResend := none, timeoutT1 := none, timeoutT2 := none, timeoutExpire := none
    attempt := 1, state := .init, xid := 0, lease := none }

/-- `sd_dhcp_client_get_lease` -/
def DhcpClient.getLease (c : DhcpClient) : Option Lease :=
  if c.state = .bound ∨ c.state = .renewing ∨ c.state = .rebinding then c.lease else none

namespace Attached

variable {υ : Type} (cb : ClientEvent → Attached υ → Attached υ) (io : Io)

def setClient (f : DhcpClient → DhcpClient) (s : Attached υ) : Attached υ :=
  { s with client := f s.client }

/-! ## Starting and stopping -/

/-- `client_stop`: the callback still sees the client as it was. -/
def clientStop (e : ClientEvent) (s : Attached υ) : Attached υ :=
  (cb e s).setClient DhcpClient.reset

/-- `client_initialize_io_events` -/
def initializeIoEvents (s : Attached υ) : Attached υ :=
  if io.result .addIo < 0 then clientStop cb (.error (io.result .addIo)) s
  else s.setClient fun c => { c with receiveMessage := true }

/-- `client_initialize_time_events` -/
def initializeTimeEvents (s : Attached υ) : Attached υ :=
  if io.result .addResend < 0 then clientStop cb (.error (io.result .addResend)) s
  else s.setClient fun c =>
    { c with timeoutResend := some (if c.startDelay = 0 then 0 else io.now + c.startDelay) }

/-- `client_initialize_events`: the timer is set even after the first half has failed. -/
def initializeEvents (s : Attached υ) : Attached υ :=
  initializeTimeEvents cb io (initializeIoEvents cb io s)

/-- `client_start_delayed` -/
def clientStartDelayed (s : Attached υ) : Int × Attached υ :=
  if s.client.fd.isSome then (-ebusy, s)
  else if s.client.xid ≠ 0 then (-einval, s)
  else if ¬(s.client.state = .init ∨ s.client.state = .initReboot) then (-ebusy, s)
  else
    let s := s.setClient fun c => { c with xid := io.random .xid }
    if io.result .bindRaw < 0 then
      (io.result .bindRaw, clientStop cb (.error (io.result .bindRaw)) s)
    else
      (0, initializeEvents cb io (s.setClient fun c =>
        { c with fd := some .raw, startTime := io.now }))

/-- `client_start` -/
def clientStart (s : Attached υ) : Int × Attached υ :=
  clientStartDelayed cb io (s.setClient fun c => { c with startDelay := 0 })

/-- `sd_dhcp_client_start` -/
def sdDhcpClientStart (s : Attached υ) : Int × Attached υ :=
  clientStart cb io (s.setClient fun c =>
    { c.reset with state := if c.lastAddr = 0 then .init else .initReboot })

/-- `sd_dhcp_client_stop` -/
def sdDhcpClientStop (s : Attached υ) : Attached υ :=
  (clientStop cb .stop s).setClient fun c => { c with state := .stopped }

/-- `sd_dhcp_client_set_mac` with a new address. -/
def sdDhcpClientSetMac (s : Attached υ) : Attached υ :=
  if s.client.state = .init ∨ s.client.state = .stopped then s
  else
    let s := clientStop cb .stop s
    if s.client.state = .stopped then s else (sdDhcpClientStart cb io s).2

/-- `sd_dhcp_client_set_iaid_duid` -/
def sdDhcpClientSetIaidDuid (s : Attached υ) : Attached υ :=
  if s.client.state = .init ∨ s.client.state = .stopped then s
  else (sdDhcpClientStart cb io (clientStop cb .stop s)).2

/-! ## Timers -/

/-- The second half of `client_timeout_resend`: the message of the state is sent. -/
def resendMessage (s : Attached υ) : Attached υ :=
  match s.client.state with
  | .init =>
    if 0 ≤ io.result .sendDiscover then
      s.setClient fun c => { c with state := .selecting, attempt := 1 }
    else if 64 ≤ s.client.attempt then clientStop cb (.error (io.result .sendDiscover)) s
    else s
  | .selecting =>
    if io.result .sendDiscover < 0 ∧ 64 ≤ s.client.attempt then
      clientStop cb (.error (io.result .sendDiscover)) s
    else s
  | .initReboot | .requesting | .renewing | .rebinding =>
    if io.result .sendRequest < 0 ∧ 64 ≤ s.client.attempt then
      clientStop cb (.error (io.result .sendRequest)) s
    else s.setClient fun c =>
      { c with
        state := if c.state = .initReboot then .rebooting else c.state
        requestSent := io.now }
  | .rebooting | .bound => s
  | .stopped => clientStop cb (.error (-einval)) s

/-- The next resend timer is armed before the message goes out. -/
def resendAt (nextTimeout : Nat) (s : Attached υ) : Attached υ :=
  if io.result .addResend < 0 then clientStop cb (.error (io.result .addResend)) s
  else resendMessage cb io (s.setClient fun c =>
    { c with timeoutResend := some (nextTimeout + (io.random .resend).toNat % 2 ^ 20) })

/-- Half the time that is left, in microseconds, and a minute at least. -/
def timeLeft (till since : UInt32) : Nat :=
  let half := (till - since) / 2
  (if half < 60 then 60 else half).toNat * 1000000

/-- The time to the next attempt while a lease is renewed. -/
def renewalTimeLeft (c : DhcpClient) (interval : Lease → UInt32 × UInt32) : Nat :=
  match c.lease with
  | some l => timeLeft (interval l).1 (interval l).2
  | none => 0

/-- `client_timeout_resend` -/
def clientTimeoutResend (s : Attached υ) : Attached υ :=
  if io.result .eventNow < 0 then clientStop cb (.error (io.result .eventNow)) s
  else
    match s.client.state with
    | .renewing =>
      resendAt cb io (io.now + renewalTimeLeft s.client fun l => (l.t2, l.t1)) s
    | .rebinding =>
      resendAt cb io (io.now + renewalTimeLeft s.client fun l => (l.lifetime, l.t2)) s
    | .rebooting =>
      -- neither an acknowledgement nor a refusal came in time
      let (r, s) := clientStart cb io (s.setClient DhcpClient.reset)
      if r < 0 then clientStop cb (.error r) s else s
    | .init | .initReboot | .selecting | .requesting | .bound =>
      let s := s.setClient fun c =>
        { c with attempt := if c.attempt < 64 then c.attempt * 2 else c.attempt }
      resendAt cb io (io.now + (s.client.attempt - 1) * 100000) s
    | .stopped => clientStop cb (.error (-einval)) s

/-- `client_timeout_expire` -/
def clientTimeoutExpire (s : Attached υ) : Attached υ :=
  let s := cb .expired s
  if s.client.state = .stopped then s
  else (clientStart cb io (s.setClient DhcpClient.reset)).2

/-- `client_timeout_t2` -/
def clientTimeoutT2 (s : Attached υ) : Attached υ :=
  let s := s.setClient fun c =>
    { c with receiveMessage := false, fd := none, state := .rebinding, attempt := 1 }
  if io.result .bindRaw < 0 then clientStop cb (.error (io.result .bindRaw)) s
  else initializeEvents cb io (s.setClient fun c => { c with fd := some .raw })

/-- `client_timeout_t1` -/
def clientTimeoutT1 (s : Attached υ) : Attached υ :=
  initializeTimeEvents cb io (s.setClient fun c => { c with state := .renewing, attempt := 1 })

/-! ## Messages -/

/-- `client_compute_timeout`, with the factor given in microseconds a second. -/
def computeTimeout (sent : Nat) (lifetime : UInt32) (factor : Nat) (jitter : UInt32) : Nat :=
  sent + (lifetime.toNat - 3) * factor + jitter.toNat % 2 ^ 21

/-- The deadlines for T2 and T1, with the lease in which both times are filled in. -/
def leaseDeadlines (sent : Nat) (l : Lease) : Lease × Nat × Nat :=
  let whole := 1000000
  let most := 875000
  let half := 500000
  if 0 < l.t1 ∧ 0 < l.t2 then
    if l.t1 < l.t2 ∧ l.t2 < l.lifetime then
      (l, computeTimeout sent l.t2 whole (io.random .t2),
        computeTimeout sent l.t1 whole (io.random .t1))
    else
      ({ l with t2 := l.lifetime * 7 / 8, t1 := l.lifetime / 2 },
        computeTimeout sent l.lifetime most (io.random .t2),
        computeTimeout sent l.lifetime half (io.random .t1))
  else if 0 < l.t2 ∧ l.t2 < l.lifetime then
    let t2 := computeTimeout sent l.t2 whole (io.random .t2)
    let t1 := computeTimeout sent l.lifetime half (io.random .t1)
    -- a T1 after the T2 given is invalid, and T2 is discarded
    if t2 ≤ t1 then
      ({ l with t1 := l.lifetime / 2, t2 := l.lifetime * 7 / 8 },
        computeTimeout sent l.lifetime most (io.random .t2Again), t1)
    else ({ l with t1 := l.lifetime / 2 }, t2, t1)
  else if 0 < l.t1 ∧ l.t1 < l.lifetime then
    let t1 := computeTimeout sent l.t1 whole (io.random .t1)
    let t2 := computeTimeout sent l.lifetime most (io.random .t2)
    if t2 ≤ t1 then
      ({ l with t2 := l.lifetime / 2 },
        computeTimeout sent l.lifetime half (io.random .t2Again), t1)
    else ({ l with t2 := l.lifetime * 7 / 8 }, t2, t1)
  else
    ({ l with t1 := l.lifetime / 2, t2 := l.lifetime * 7 / 8 },
      computeTimeout sent l.lifetime most (io.random .t2),
      computeTimeout sent l.lifetime half (io.random .t1))

/-- The three timers of a lease, each armed only if the one before succeeded and lies ahead. -/
def armLeaseTimers (expire t2 t1 : Nat) (c : DhcpClient) : Int × DhcpClient :=
  if io.result .addExpire < 0 then (io.result .addExpire, c)
  else if expire ≤ io.now then (0, { c with timeoutExpire := some expire })
  else if io.result .addT2 < 0 then
    (io.result .addT2, { c with timeoutExpire := some expire })
  else if t2 ≤ io.now then
    (0, { c with timeoutExpire := some expire, timeoutT2 := some t2 })
  else if io.result .addT1 < 0 then
    (io.result .addT1, { c with timeoutExpire := some expire, timeoutT2 := some t2 })
  else
    (0, { c with timeoutExpire := some expire, timeoutT2 := some t2, timeoutT1 := some t1 })

/-- `client_set_lease_timeouts` for the lease just acknowledged. -/
def setLeaseTimeouts (l : Lease) (c : DhcpClient) : Except Abort (Int × DhcpClient) :=
  let c := { c with timeoutT1 := none, timeoutT2 := none, timeoutExpire := none }
  if l.lifetime = 0xffffffff then .ok (0, c)
  else if io.result .eventNow < 0 then .ok (io.result .eventNow, c)
  else if io.now < c.requestSent ∨ c.requestSent = 0 then .error .leaseTimeouts
  else
    let expire := computeTimeout c.requestSent l.lifetime 1000000 (io.random .expire)
    let deadlines := leaseDeadlines io c.requestSent l
    .ok (armLeaseTimers io expire deadlines.2.1 deadlines.2.2
      { c with lease := some deadlines.1 })

/-- How `client_handle_ack` classifies a lease against the one the client has. -/
def ackEvent (old : Option Lease) (l : Lease) : ClientEvent :=
  match old with
  | none => .ipAcquire
  | some o =>
    if o.address ≠ l.address ∨ o.subnetMask ≠ l.subnetMask ∨
      o.router ≠ l.router then .ipChange
    else .renew

/-- The event of which the callback is told; none if a renewal finds no old lease. -/
def notifyEvent (c : DhcpClient) (l : Lease) : Option ClientEvent :=
  if c.state = .requesting ∨ c.state = .rebooting then some .ipAcquire
  else if ackEvent c.lease l = .ipAcquire then none
  else some (ackEvent c.lease l)

/-- `client_notify`, if there is an event. -/
def clientNotify (e : Option ClientEvent) (s : Attached υ) : Attached υ :=
  match e with
  | none => s
  | some e => cb e s

/-- What an acknowledgement of a lease does. -/
def acknowledge (l : Lease) (s : Attached υ) : Except Abort (Attached υ) :=
  let event := notifyEvent s.client l
  let c := { s.client with
    lease := some l, startDelay := 0, timeoutResend := none, receiveMessage := false
    fd := none, state := .bound, attempt := 1, lastAddr := l.address }
  match setLeaseTimeouts io l c with
  | .error a => .error a
  | .ok (r, c) =>
    let s := { s with client := c }
    if r < 0 then .ok (clientStop cb (.error r) s)
    else if io.result .bindUdp < 0 then .ok (clientStop cb (.error (io.result .bindUdp)) s)
    else
      .ok (clientNotify cb event (initializeIoEvents cb io (s.setClient fun c =>
        { c with fd := some (.udp l.address) })))

/-- What a refusal does: the client starts over, and nobody is told. -/
def refuse (s : Attached υ) : Attached υ :=
  let (r, s) := clientStartDelayed cb io (s.setClient DhcpClient.reset)
  if r < 0 then clientStop cb (.error r) s
  else s.setClient fun c => { c with startDelay := max 500000 (min (c.startDelay * 2) 2000000) }

/-- `client_handle_message` -/
def clientHandleMessage (m : Body) (s : Attached υ) : Except Abort (Attached υ) :=
  match s.client.state, m with
  | .selecting, .offer o =>
    match o.offered with
    | none => .ok s
    | some l =>
      let s := s.setClient fun c =>
        { c with lease := some l, timeoutResend := none, state := .requesting, attempt := 1 }
      if io.result .addResend < 0 then
        .ok (clientStop cb (.error (io.result .addResend)) s)
      else .ok (s.setClient fun c => { c with timeoutResend := some 0 })
  | .rebooting, .ack o | .requesting, .ack o | .renewing, .ack o | .rebinding, .ack o =>
    match o.acknowledged with
    | none => .ok s
    | some l => acknowledge cb io l s
  | .rebooting, .nak | .requesting, .nak | .renewing, .nak | .rebinding, .nak =>
    .ok (refuse cb io s)
  | .bound, .forcerenew => .ok (clientTimeoutT1 cb io s)
  | .stopped, _ => .ok (clientStop cb (.error (-einval)) s)
  | _, _ => .ok s

/-- `client_receive_message_udp` and `client_receive_message_raw`. A bound client takes any
transaction; the raw socket filters by it. -/
def clientReceiveMessage (m : Message) (s : Attached υ) : Except Abort (Attached υ) :=
  if (s.client.state = .bound ∧ s.client.fd ≠ some .raw) ∨ m.xid = s.client.xid then
    clientHandleMessage cb io m.body s
  else .ok s

end Attached

/-! ## Replies that count -/

namespace DhcpClient

/-- The states in which an acknowledgement or a refusal counts. -/
def awaitsReply (c : DhcpClient) : Bool :=
  c.state = .rebooting || c.state = .requesting || c.state = .renewing || c.state = .rebinding

/-- The lease of a message, if the client takes it as an acknowledgement. -/
def accepted (c : DhcpClient) (m : Message) : Option Lease :=
  match m.body with
  | .ack o => if c.awaitsReply ∧ m.xid = c.xid then o.acknowledged else none
  | _ => none

/-- The client takes the message as a refusal. -/
def refused (c : DhcpClient) (m : Message) : Bool :=
  c.awaitsReply && m.xid = c.xid && m.body = .nak

end DhcpClient

end CarFi.Roamingd

import CarFi.Roamingd.Link
import CarFi.Library.Transition

/-!
# The daemon

The notifications of the kernel about a link, and the step of the daemon on one event of an
interface.
-/
namespace CarFi.Roamingd

open Library

/-- A notification that a link exists, with the state of the link that an earlier run of the
daemon has saved. -/
structure LinkMessage where
  managed : Bool := true
  carrier : Bool
  up : Bool := true
  mac : Option Nat := none
  savedAddresses : List Addr := []
  savedAddress : InAddr := 0

namespace Attached

/-- `link_acquire_conf` -/
def acquireConf (io : Io) (s : Iface) : Int × Iface :=
  let (r, s) := sdDhcpClientStart (dhcp4Handler io) io (s.logLink .acquiringLease)
  if r < 0 then (r, s.logLink (.failure .acquireLease r)) else (0, s)

/-- `link_enter_set_addresses` and `link_enter_set_routes`, with nothing to set. -/
def enterSetRoutes (s : Iface) : Except Abort Iface :=
  (Link.checkReady { s.userdata with state := .settingRoutes, staticConfigured := true }).map
    fun l => { s with userdata := l }

/-- `link_enter_join_netdev` and `link_joined` -/
def enterJoinNetdev (io : Io) (up : Bool) (s : Iface) : Except Abort (Int × Iface) :=
  let s := s.mapLink fun l => { l with state := .enslaving }
  if up then (enterSetRoutes s).map fun s => (0, s)
  else
    let s := s.logLink .bringingUp
    if io.result .linkUp < 0 then
      .ok (io.result .linkUp, failWith .sendUp (io.result .linkUp) s)
    else (enterSetRoutes (s.mapLink (Link.request .setLink))).map fun s => (0, s)

/-- `link_configure` -/
def configure (io : Io) (up : Bool) (s : Iface) : Except Abort (Int × Iface) :=
  if io.result .configure < 0 then .ok (io.result .configure, s)
  else if s.userdata.carrier then
    let (r, s) := acquireConf io s
    if r < 0 then .ok (r, s) else enterJoinNetdev io up s
  else enterJoinNetdev io up s

/-- `link_new` and `link_load` -/
def linkNew (m : LinkMessage) : Iface where
  client := { lastAddr := m.savedAddress }
  userdata :=
    m.savedAddresses.foldl (fun l a => l.addressAdd a)
      { managed := m.managed, mac := m.mac.getD 0, carrier := m.carrier, out := [.linkAdded] }

/-- `link_add`: a failure of the configuration fails the link. -/
def linkAdd (io : Io) (m : LinkMessage) : Except Abort (Int × Iface) :=
  let s := (linkNew m).logLink .upToDate
  if m.managed then
    match configure io m.up s with
    | .error a => .error a
    | .ok (r, s) => if r < 0 then .ok (r, enterFailed s) else .ok (0, s)
  else .ok (0, s.mapLink fun l => { l.log .unmanaged with state := .unmanaged })

/-- `link_carrier_gained` -/
def carrierGained (io : Io) (s : Iface) : Iface :=
  let state := s.userdata.state
  if state = .pending ∨ state = .unmanaged ∨ state = .failed then s
  else
    let (r, s) := acquireConf io s
    if r < 0 then enterFailed s else s

/-- `link_carrier_lost` -/
def carrierLost (io : Io) (s : Iface) : Iface := sdDhcpClientStop (dhcp4Handler io) s

/-- The client is given a new hardware address, from which its identifier is derived. -/
def changeMac (io : Nat → Io) (mac : Option Nat) (s : Iface) : Iface :=
  match mac with
  | none => s
  | some mac =>
    if mac = s.userdata.mac then s
    else
      let s := s.mapLink fun l => { l with mac := mac }
      sdDhcpClientSetIaidDuid (dhcp4Handler (io 2)) (io 2)
        (sdDhcpClientSetMac (dhcp4Handler (io 1)) (io 1) s)

/-- `link_update`. The client may be started three times; `io 1`, `io 2` and `io 0` are what the
surroundings answer each time. -/
def linkUpdate (io : Nat → Io) (m : LinkMessage) (s : Iface) : Iface :=
  let s :=
    if s.userdata.state = .linger then
      s.mapLink fun l => { l.log .linkReadded with state := .enslaving }
    else s
  let s := changeMac io m.mac s
  let hadCarrier := s.userdata.carrier
  let s := s.mapLink fun l => { l with carrier := m.carrier }
  if ¬hadCarrier ∧ m.carrier then carrierGained (io 0) (s.logLink .gainedCarrier)
  else if hadCarrier ∧ ¬m.carrier then carrierLost (io 0) (s.logLink .lostCarrier)
  else s

/-- `link_drop`; the client is left as it is. -/
def linkDrop (s : Iface) : Iface :=
  if s.userdata.state = .linger then s
  else s.mapLink fun l => { l.log .linkRemoved with state := .linger }

end Attached

/-! ## Steps -/

/-- What the event loop hands to the daemon for an interface. -/
inductive Event where
  | newLink (m : LinkMessage)
  | delLink
  | newAddr (a : Addr) (ready : Bool)
  | delAddr (a : Addr)
  | reply (i : Nat) (r : Int)
  | receive (m : Message)
  | resend | t1 | t2 | expire

/-- What an event does to an interface. Nothing happens for an event that cannot occur: a reply
without a request, a timer that is not armed, a message without a socket. -/
def Attached.handle (io : Nat → Io) (s : Iface) : Event → Option (Except Abort Iface)
  | .newLink m => some (.ok (s.linkUpdate io m))
  | .delLink => some (.ok s.linkDrop)
  | .newAddr a ready =>
    some ((s.userdata.newAddr a ready).map fun l => { s with userdata := l })
  | .delAddr a => some ((s.userdata.delAddr a).map fun l => { s with userdata := l })
  | .reply i r =>
    s.userdata.pending[i]?.map fun q =>
      (s.mapLink fun l => { l with pending := l.pending.eraseIdx i }).handleReply (io 0) r q
  | .receive m =>
    if s.client.receiveMessage then
      some (Attached.clientReceiveMessage (Attached.dhcp4Handler (io 0)) (io 0) m s)
    else none
  | .resend =>
    s.client.timeoutResend.map fun _ =>
      .ok (Attached.clientTimeoutResend (Attached.dhcp4Handler (io 0)) (io 0) s)
  | .t1 =>
    s.client.timeoutT1.map fun _ =>
      .ok (Attached.clientTimeoutT1 (Attached.dhcp4Handler (io 0)) (io 0)
        (s.setClient fun c => { c with timeoutT1 := none }))
  | .t2 =>
    s.client.timeoutT2.map fun _ =>
      .ok (Attached.clientTimeoutT2 (Attached.dhcp4Handler (io 0)) (io 0)
        (s.setClient fun c => { c with timeoutT2 := none }))
  | .expire =>
    s.client.timeoutExpire.map fun _ =>
      .ok (Attached.clientTimeoutExpire (Attached.dhcp4Handler (io 0)) (io 0)
        (s.setClient fun c => { c with timeoutExpire := none }))

/-- The interface as the event loop gets it back: a link that is gone is freed with the last
reply, and the requests and lines of the event are no longer new. -/
def Attached.settle (s : Iface) : Option Iface :=
  if s.userdata.state = .linger ∧ s.userdata.pending = [] then none
  else some (s.mapLink fun l => { l with sent := [], out := [] })

/-- What an event does to the link of an index, which may not exist. -/
def handleEvent (io : Nat → Io) : Option Iface → Event → Option (Except Abort Iface)
  | some s, e => s.handle io e
  | none, .newLink m =>
    match Attached.linkAdd (io 0) m with
    | .error a => some (.error a)
    | .ok (r, s) => some (.ok (if r < 0 then s else s.linkUpdate io m))
  | none, _ => none

/-- An event together with what the daemon did on it. -/
structure Occurrence where
  io : Nat → Io
  event : Event
  sent : List Request
  out : List LogMsg

/-- One step of the daemon on an interface. -/
inductive LinkStep : Option Iface → Occurrence → Option Iface → Prop
  | handle {s : Option Iface} {io : Nat → Io} {e : Event} {t : Iface}
      (h : handleEvent io s e = some (.ok t)) :
      LinkStep s ⟨io, e, t.userdata.sent, t.userdata.out⟩ t.settle

/-! ## Runs on given inputs -/

/-- Surroundings in which every call succeeds. -/
def quietIo (now : Nat) : Io where
  now := now
  random := fun _ => 7
  result := fun _ => 0

/-- The daemon on timed events, while it goes on, with what it did. -/
def execute : Option Iface → List (Nat × Event) → Option (List Occurrence × Option Iface)
  | s, [] => some ([], s)
  | s, (now, e) :: es =>
    match handleEvent (fun _ => quietIo now) s e with
    | some (.ok t) => (execute t.settle es).map fun p =>
      (⟨fun _ => quietIo now, e, t.userdata.sent, t.userdata.out⟩ :: p.1, p.2)
    | _ => none

theorem execute_cons {now : Nat} {e : Event} {es : List (Nat × Event)} {s s' : Option Iface}
    {os : List Occurrence} (h : execute s ((now, e) :: es) = some (os, s')) :
    ∃ t os', handleEvent (fun _ => quietIo now) s e = some (.ok t) ∧
      execute t.settle es = some (os', s') ∧
      os = ⟨fun _ => quietIo now, e, t.userdata.sent, t.userdata.out⟩ :: os' := by
  simp only [execute] at h
  split at h
  · next t ht =>
    obtain ⟨⟨os', s''⟩, he, hp⟩ := Option.map_eq_some_iff.mp h
    cases hp
    exact ⟨t, os', ht, he, rfl⟩
  · cases h

theorem execute_run {ok : Option Iface → Occurrence → Prop} {es : List (Nat × Event)}
    {s s' : Option Iface} {os : List Occurrence} (h : execute s es = some (os, s'))
    (hok : ∀ p ∈ es, ∀ s sent out, ok s ⟨fun _ => quietIo p.1, p.2, sent, out⟩) :
    Run (Guarded ok LinkStep) s os s' := by
  induction es generalizing s os with
  | nil =>
    cases h
    exact .nil _
  | cons p es ih =>
    obtain ⟨t, os', ht, he, rfl⟩ := execute_cons h
    exact .cons ⟨hok p List.mem_cons_self _ _ _, .handle ht⟩
      (ih he fun p hp => hok p (List.mem_cons_of_mem _ hp))

/-- The first event finds no link, so that a condition on the link is met. -/
theorem execute_run_new {ok : Option Iface → Occurrence → Prop} {p : Nat × Event}
    {es : List (Nat × Event)} {s : Option Iface} {os : List Occurrence}
    (h : execute none (p :: es) = some (os, s)) (hnew : ∀ c, ok none c)
    (hok : ∀ p ∈ es, ∀ s sent out, ok s ⟨fun _ => quietIo p.1, p.2, sent, out⟩) :
    Run (Guarded ok LinkStep) none os s := by
  obtain ⟨t, os', ht, he, rfl⟩ := execute_cons h
  exact .cons ⟨hnew _, .handle ht⟩ (execute_run he hok)

/-- Every event meets a condition on the link that it finds. -/
def meets (p : Option Iface → Event → Bool) : Option Iface → List (Nat × Event) → Bool
  | _, [] => true
  | s, (now, e) :: es => p s e &&
    match handleEvent (fun _ => quietIo now) s e with
    | some (.ok t) => meets p t.settle es
    | _ => true

theorem execute_run_meets {ok : Option Iface → Occurrence → Prop}
    {p : Option Iface → Event → Bool} {es : List (Nat × Event)} {s s' : Option Iface}
    {os : List Occurrence} (h : execute s es = some (os, s')) (hp : meets p s es = true)
    (hok : ∀ s e now sent out, p s e = true → ok s ⟨fun _ => quietIo now, e, sent, out⟩) :
    Run (Guarded ok LinkStep) s os s' := by
  induction es generalizing s os with
  | nil =>
    cases h
    exact .nil _
  | cons q es ih =>
    obtain ⟨now, e⟩ := q
    obtain ⟨t, os', ht, he, rfl⟩ := execute_cons h
    simp only [meets, ht, Bool.and_eq_true] at hp
    exact .cons ⟨hok _ _ _ _ _ hp.1, .handle ht⟩ (ih he hp.2)

/-- What the handling of an event leaves, if it goes through. -/
def resultOf : Option (Except Abort Iface) → Option Iface
  | some (.ok s) => some s
  | _ => none

theorem eq_of_resultOf {x : Option (Except Abort Iface)} {s : Iface} (h : resultOf x = some s) :
    x = some (.ok s) := by
  unfold resultOf at h
  split at h
  · cases h
    rfl
  · cases h

/-- The assertion that fails, if one does. -/
def abortOf : Option (Except Abort Iface) → Option Abort
  | some (.error a) => some a
  | _ => none

theorem eq_of_abortOf {x : Option (Except Abort Iface)} {a : Abort} (h : abortOf x = some a) :
    x = some (.error a) := by
  unfold abortOf at h
  split at h
  · cases h
    rfl
  · cases h

theorem execute_reaches {es : List (Nat × Event)} {p : List Occurrence × Option Iface → Bool}
    (h : (execute none es).any p) : ∃ os o, Run LinkStep none os o ∧ p (os, o) := by
  obtain ⟨⟨os, o⟩, ho, hp⟩ := (Option.any_eq_true _ _).mp h
  exact ⟨os, o, (@execute_run (fun _ _ => True) _ _ _ _ ho fun _ _ _ _ _ => trivial).of_guarded,
    hp⟩

/-- The lease of a small network. -/
def sampleOptions : Options where
  address := 0xc0a80064
  subnetMask := some 0xffffff00
  router := 0xc0a80001
  serverAddress := 0xc0a80001
  lifetime := 3600

/-- A lease is acquired on a link that has just been added. -/
def acquisition (o : Options) : List (Nat × Event) :=
  [(1000000, .newLink { carrier := true, mac := some 1 }), (1000000, .resend),
    (1100000, .receive ⟨7, .offer o⟩), (1100000, .resend), (1200000, .receive ⟨7, .ack o⟩)]

end CarFi.Roamingd

import CarFi.Roamingd.Effects

/-!
# Runs of the DHCP client

The client between its calls: the program starts and stops it, the event loop fires its timers and
hands it messages, in any order. The callback of the program may stop the client but does nothing
else to it, so a step can be told from the client alone. `Move` lists what a step can do; the
invariants of the client are proved over it.
-/
namespace CarFi.Roamingd

open Library

/-- `sd_dhcp_client_stop`, on the client. -/
def DhcpClient.stop (c : DhcpClient) : DhcpClient := { c.reset with state := .stopped }

/-- A callback that leaves the client as it is or stops it. -/
structure Callback (υ : Type) where
  call : Io → ClientEvent → Attached υ → Attached υ
  client_call : ∀ io e s,
    (call io e s).client = s.client ∨ (call io e s).client = s.client.stop

/-- What the program and the event loop ask of the client. -/
inductive ClientCall where
  | start | stop | setMac | setIaidDuid
  | receive (m : Message)
  | resend | t1 | t2 | expire
  deriving DecidableEq, Repr

variable {υ : Type}

/-- A timer fires only while it is armed, and a message is read only from a socket. -/
def Attached.act (cb : Callback υ) (io : Io) (s : Attached υ) :
    ClientCall → Option (Except Abort (Attached υ))
  | .start => some (.ok (sdDhcpClientStart (cb.call io) io s).2)
  | .stop => some (.ok (sdDhcpClientStop (cb.call io) s))
  | .setMac => some (.ok (sdDhcpClientSetMac (cb.call io) io s))
  | .setIaidDuid => some (.ok (sdDhcpClientSetIaidDuid (cb.call io) io s))
  | .receive m =>
    if s.client.receiveMessage then some (clientReceiveMessage (cb.call io) io m s) else none
  | .resend => s.client.timeoutResend.map fun _ => .ok (clientTimeoutResend (cb.call io) io s)
  | .t1 => s.client.timeoutT1.map fun _ =>
    .ok (clientTimeoutT1 (cb.call io) io (s.setClient fun c => { c with timeoutT1 := none }))
  | .t2 => s.client.timeoutT2.map fun _ =>
    .ok (clientTimeoutT2 (cb.call io) io (s.setClient fun c => { c with timeoutT2 := none }))
  | .expire => s.client.timeoutExpire.map fun _ =>
    .ok (clientTimeoutExpire (cb.call io)
      io (s.setClient fun c => { c with timeoutExpire := none }))

/-- Nothing can be sent without a socket. -/
def DhcpClient.Sends (c : DhcpClient) (e : Io × ClientCall) : Prop :=
  e.2 = .resend → c.fd = none → e.1.result .sendDiscover < 0 ∧ e.1.result .sendRequest < 0

instance (c : DhcpClient) (e : Io × ClientCall) : Decidable (c.Sends e) :=
  inferInstanceAs (Decidable (_ → _))

/-- One step of the client, with any data `u` of the program. -/
inductive ClientStep (cb : Callback υ) : DhcpClient → Io × ClientCall → DhcpClient → Prop
  | act {c : DhcpClient} {io : Io} {call : ClientCall} {u : υ} {s : Attached υ}
      (hsend : c.Sends (io, call)) (h : Attached.act cb io ⟨c, u⟩ call = some (.ok s)) :
      ClientStep cb c (io, call) s.client

/-- The step on an event, computed. -/
def DhcpClient.next (cb : Callback υ) (u : υ) (c : DhcpClient) (e : Io × ClientCall) :
    Option DhcpClient :=
  if c.Sends e then
    match Attached.act cb e.1 ⟨c, u⟩ e.2 with
    | some (.ok s) => some s.client
    | _ => none
  else none

theorem DhcpClient.next_step {cb : Callback υ} {u : υ} {c c' : DhcpClient} {e : Io × ClientCall}
    (h : c.next cb u e = some c') : ClientStep cb c e c' := by
  unfold next at h
  split at h
  · next hsend =>
    split at h
    · next hact =>
      cases h
      exact .act hsend hact
    · cases h
  · cases h

/-- Steps that meet a condition and are computed make a run. -/
theorem DhcpClient.run_of_any {cb : Callback υ} {u : υ}
    {ok : DhcpClient → Io × ClientCall → Prop} [∀ c e, Decidable (ok c e)] {c : DhcpClient}
    {es : List (Io × ClientCall)} {p : DhcpClient → Bool}
    (h : (es.foldlM (fun c e => if ok c e then c.next cb u e else none) c).any p) :
    ∃ c', Run (Guarded ok (ClientStep cb)) c es c' ∧ p c' := by
  obtain ⟨c', hc', hp⟩ := (Option.any_eq_true _ _).mp h
  refine ⟨c', Run.of_foldlM (fun c e c' h => ?_) hc', hp⟩
  split at h
  · next hok => exact ⟨hok, next_step h⟩
  · cases h

/-- Steps that are computed make a run with its history. -/
theorem DhcpClient.watched_of_any {cb : Callback υ} {u : υ}
    {upd : DhcpClient → Io × ClientCall → DhcpClient → Nat → Nat} {c : DhcpClient × Nat}
    {es : List (Io × ClientCall)} {p : DhcpClient × Nat → Bool}
    (h : (es.foldlM (fun (q : DhcpClient × Nat) e =>
      (q.1.next cb u e).map fun c' => (c', upd q.1 e c' q.2)) c).any p) :
    ∃ c', Run (Watched upd (ClientStep cb)) c es c' ∧ p c' := by
  obtain ⟨c', hc', hp⟩ := (Option.any_eq_true _ _).mp h
  refine ⟨c', Run.of_foldlM (fun q e r h => ?_) hc', hp⟩
  obtain ⟨d, hd, rfl⟩ := Option.map_eq_some_iff.mp h
  exact ⟨next_step hd, rfl⟩

/-- A program that has nothing to do with the events of the client. -/
def quietCallback : Callback Unit where
  call := fun _ _ s => s
  client_call := fun _ _ _ => .inl rfl

/-- A lease is acquired. -/
def leaseHeld (o : Options) : List (Nat × ClientCall) :=
  [(1000000, .start), (1000000, .resend), (1100000, .receive ⟨7, .offer o⟩), (1100000, .resend),
    (1200000, .receive ⟨7, .ack o⟩)]

/-- Calls at given times, in quiet surroundings. -/
def timed (es : List (Nat × ClientCall)) : List (Io × ClientCall) :=
  es.map fun p => (quietIo p.1, p.2)

/-! ## What a step can do -/

namespace DhcpClient

/-- When the first message of a client that starts is due. -/
def startAt (io : Io) (c : DhcpClient) : Nat :=
  if c.startDelay = 0 then 0 else io.now + c.startDelay

/-- The client as `sd_dhcp_client_start` prepares it. -/
def prepared (c : DhcpClient) : DhcpClient :=
  { c.reset with state := if c.lastAddr = 0 then .init else .initReboot, startDelay := 0 }

/-- The client as it starts over after a lost lease or an unanswered request. -/
def renewed (c : DhcpClient) : DhcpClient := { c.reset with startDelay := 0 }

/-- The number of attempts after a timeout, and the next one. -/
def backedOff (io : Io) (c : DhcpClient) : DhcpClient :=
  let attempt := if c.attempt < 64 then c.attempt * 2 else c.attempt
  { c with
    attempt := attempt
    timeoutResend := some (io.now + (attempt - 1) * 100000 + (io.random .resend).toNat % 2 ^ 20) }

end DhcpClient

/-- The outcomes of `client_initialize_events`. If the socket cannot be watched the client is
stopped, but the timer is armed all the same. -/
inductive Events (io : Io) (c : DhcpClient) : DhcpClient → Prop
  | failed (hfail : io.result .addResend < 0) : Events io c c.reset
  | deaf : Events io c { c.reset with timeoutResend := some (c.startAt io) }
  | armed : Events io c
      { c with receiveMessage := true, timeoutResend := some (c.startAt io) }

/-- The outcomes of `client_start_delayed`. -/
inductive Starts (io : Io) (c : DhcpClient) : DhcpClient → Prop
  | failed (hfail : io.result .bindRaw < 0) : Starts io c c.reset
  | events {c' : DhcpClient} (h : Events io
      { c with xid := io.random .xid, fd := some .raw, startTime := io.now } c') : Starts io c c'

/-- The outcomes of `client_timeout_t1`. -/
inductive Renews (io : Io) (c : DhcpClient) : DhcpClient → Prop
  | failed : Renews io c c.reset
  | armed : Renews io c { c with
      state := .renewing, attempt := 1, timeoutResend := some (c.startAt io) }

/-- The outcomes of an acknowledgement of the lease `l`. -/
inductive Binds (c : DhcpClient) (l : Lease) : DhcpClient → Prop
  | failed : Binds c l { c.reset with startDelay := 0, lastAddr := l.address }
  | stopped : Binds c l { c.stop with startDelay := 0, lastAddr := l.address }
  | bound {l' : Lease} {t1 t2 expire : Option Nat} (hl : l'.address = l.address) :
      Binds c l { c with
        lease := some l', startDelay := 0, timeoutResend := none, receiveMessage := true
        fd := some (.udp l.address), state := .bound, attempt := 1, lastAddr := l.address
        timeoutT1 := t1, timeoutT2 := t2, timeoutExpire := expire }

/-- The outcomes of a resend timeout. -/
inductive Resends (io : Io) (c : DhcpClient) : DhcpClient → Prop
  | failed (hfail : c.state = .stopped ∨ ∃ call, io.result call < 0) : Resends io c c.reset
  | renewal {t : Nat} (hs : c.state = .renewing ∨ c.state = .rebinding) :
      Resends io c { c with timeoutResend := some t, requestSent := io.now }
  | restart {c' : DhcpClient} (hs : c.state = .rebooting) (hnow : 0 ≤ io.result .eventNow)
      (h : Starts io c.renewed c') : Resends io c c'
  | discovered (hs : c.state = .init) (hsent : 0 ≤ io.result .sendDiscover) :
      Resends io c { c.backedOff io with state := .selecting, attempt := 1 }
  | waiting (hs : c.state = .init ∧ io.result .sendDiscover < 0 ∨ c.state = .selecting ∨
      c.state = .bound) : Resends io c (c.backedOff io)
  | rebooting (hs : c.state = .initReboot) :
      Resends io c { c.backedOff io with state := .rebooting, requestSent := io.now }
  | requested (hs : c.state = .requesting) :
      Resends io c { c.backedOff io with requestSent := io.now }

/-- What a call can do to the client. -/
inductive Move (io : Io) (c : DhcpClient) : ClientCall → DhcpClient → Prop
  | start {c' : DhcpClient} (h : Starts io c.prepared c') : Move io c .start c'
  | stop : Move io c .stop c.stop
  | setMacIdle (hs : c.state = .init ∨ c.state = .stopped) : Move io c .setMac c
  | setMac {c' : DhcpClient} (hs : ¬(c.state = .init ∨ c.state = .stopped))
      (h : Starts io c.prepared c') : Move io c .setMac c'
  | setIaidDuidIdle (hs : c.state = .init ∨ c.state = .stopped) : Move io c .setIaidDuid c
  | setIaidDuid {c' : DhcpClient} (hs : ¬(c.state = .init ∨ c.state = .stopped))
      (h : Starts io c.prepared c') : Move io c .setIaidDuid c'
  | resend {t : Nat} {c' : DhcpClient} (ht : c.timeoutResend = some t) (h : Resends io c c') :
      Move io c .resend c'
  | t1 {t : Nat} {c' : DhcpClient} (ht : c.timeoutT1 = some t)
      (h : Renews io { c with timeoutT1 := none } c') : Move io c .t1 c'
  | t2Failed {t : Nat} (ht : c.timeoutT2 = some t) : Move io c .t2 c.reset
  | t2 {t : Nat} {c' : DhcpClient} (ht : c.timeoutT2 = some t) (h : Events io { c with
      timeoutT2 := none, receiveMessage := false, fd := some .raw, state := .rebinding
      attempt := 1 } c') : Move io c .t2 c'
  | expireStopped {t : Nat} (ht : c.timeoutExpire = some t) : Move io c .expire c.stop
  | expireIdle {t : Nat} (ht : c.timeoutExpire = some t) (hs : c.state = .stopped) :
      Move io c .expire { c with timeoutExpire := none }
  | expire {t : Nat} {c' : DhcpClient} (ht : c.timeoutExpire = some t)
      (h : Starts io c.renewed c') : Move io c .expire c'
  | ignored {m : Message} (ha : c.accepted m = none) (hr : c.refused m = false) :
      Move io c (.receive m) c
  | invalid {m : Message} (hs : c.state = .stopped) : Move io c (.receive m) c.reset
  | offer {m : Message} {l : Lease} (hs : c.state = .selecting) : Move io c (.receive m)
      { c with lease := some l, timeoutResend := some 0, state := .requesting, attempt := 1 }
  | offerFailed {m : Message} (hs : c.state = .selecting) : Move io c (.receive m) c.reset
  | forcerenew {m : Message} {c' : DhcpClient} (hs : c.state = .bound) (h : Renews io c c') :
      Move io c (.receive m) c'
  | ack {m : Message} {l : Lease} {c' : DhcpClient} (hm : c.accepted m = some l)
      (h : Binds c l c') : Move io c (.receive m) c'
  | nakFailed {m : Message} (hm : c.refused m = true) (hfail : io.result .bindRaw < 0) :
      Move io c (.receive m) c.reset
  | nak {m : Message} {c' : DhcpClient} (hm : c.refused m = true)
      (h : Starts io c.reset c') : Move io c (.receive m)
        { c' with startDelay := max 500000 (min (c'.startDelay * 2) 2000000) }

/-! ## The functions of the client -/

namespace Attached

variable {cb : Callback υ} {io : Io} {s : Attached υ}

/-- Whatever the callback does is undone by the reset. -/
@[simp] theorem clientStop_client (e : ClientEvent) :
    (clientStop (cb.call io) e s).client = s.client.reset := by
  unfold clientStop
  obtain h | h := cb.client_call io e s <;> rw [setClient_client, h]
  rfl

theorem initializeTimeEvents_client :
    io.result .addResend < 0 ∧
        (initializeTimeEvents (cb.call io) io s).client = s.client.reset ∨
      (initializeTimeEvents (cb.call io) io s).client =
        { s.client with timeoutResend := some (s.client.startAt io) } := by
  unfold initializeTimeEvents
  split
  · next hfail => exact .inl ⟨hfail, clientStop_client _⟩
  · exact .inr rfl

theorem initializeIoEvents_client :
    (initializeIoEvents (cb.call io) io s).client = s.client.reset ∨
      (initializeIoEvents (cb.call io) io s).client = { s.client with receiveMessage := true } := by
  unfold initializeIoEvents
  split
  · exact .inl (clientStop_client _)
  · exact .inr rfl

theorem initializeEvents_client {c : DhcpClient} (hc : s.client = c) :
    Events io c (initializeEvents (cb.call io) io s).client := by
  subst hc
  unfold initializeEvents
  obtain hio | hio := @initializeIoEvents_client υ cb io s <;>
    obtain ⟨hfail, ht⟩ | ht := @initializeTimeEvents_client υ cb io
      (initializeIoEvents (cb.call io) io s) <;>
    rw [ht, hio]
  · exact .failed hfail
  · exact .deaf
  · exact .failed hfail
  · exact .armed

theorem clientStartDelayed_client {c : DhcpClient} (hc : s.client = c) (hfd : c.fd = none)
    (hxid : c.xid = 0) (hs : c.state = .init ∨ c.state = .initReboot) :
    Starts io c (clientStartDelayed (cb.call io) io s).2.client ∧
      ((clientStartDelayed (cb.call io) io s).1 < 0 → io.result .bindRaw < 0 ∧
        (clientStartDelayed (cb.call io) io s).2.client = c.reset) := by
  subst hc
  unfold clientStartDelayed
  rw [if_neg (by simp [hfd]), if_neg (by simp [hxid]), if_neg (not_not.mpr hs)]
  dsimp only
  split
  · next hfail =>
    simp only [clientStop_client]
    exact ⟨.failed hfail, fun _ => ⟨hfail, rfl⟩⟩
  · refine ⟨.events (initializeEvents_client rfl), fun h => ?_⟩
    exact absurd h (Int.lt_irrefl 0)

theorem sdDhcpClientStart_client :
    Starts io s.client.prepared (sdDhcpClientStart (cb.call io) io s).2.client := by
  unfold sdDhcpClientStart clientStart
  refine (clientStartDelayed_client (c := s.client.prepared) rfl rfl rfl ?_).1
  unfold DhcpClient.prepared
  dsimp only
  split
  · exact .inl rfl
  · exact .inr rfl

theorem restart_client :
    Starts io s.client.renewed
      (clientStart (cb.call io) io (s.setClient DhcpClient.reset)).2.client ∧
      ((clientStart (cb.call io) io (s.setClient DhcpClient.reset)).1 < 0 →
        io.result .bindRaw < 0 ∧
        (clientStart (cb.call io) io (s.setClient DhcpClient.reset)).2.client =
          s.client.renewed.reset) :=
  clientStartDelayed_client rfl rfl rfl (.inl rfl)

/-! ### Timers -/

/-- The message is sent after the timer has been armed again. -/
theorem resendMessage_client {c : DhcpClient} (hc : s.client = c.backedOff io)
    (hs : c.state = .init ∨ c.state = .initReboot ∨ c.state = .selecting ∨
      c.state = .requesting ∨ c.state = .bound) :
    Resends io c (resendMessage (cb.call io) io s).client := by
  have hreset : s.client.reset = c.reset := by rw [hc]; rfl
  have hstate : s.client.state = c.state := by rw [hc]; rfl
  unfold resendMessage
  obtain h | h | h | h | h := hs <;> simp only [hstate, h]
  · split
    · next hsent =>
      rw [setClient_client, hc]
      exact .discovered h hsent
    next hfail =>
    split
    · rw [clientStop_client, hreset]
      exact .failed (.inr ⟨_, Int.not_le.mp hfail⟩)
    · rw [hc]
      exact .waiting (.inl ⟨h, Int.not_le.mp hfail⟩)
  · split
    · next hfail =>
      rw [clientStop_client, hreset]
      exact .failed (.inr ⟨_, hfail.1⟩)
    · rw [setClient_client, hc]
      have hb : (c.backedOff io).state = .initReboot := h
      simp only [hb, if_pos]
      exact .rebooting h
  · split
    · next hfail =>
      rw [clientStop_client, hreset]
      exact .failed (.inr ⟨_, hfail.1⟩)
    · rw [hc]
      exact .waiting (.inr (.inl h))
  · split
    · next hfail =>
      rw [clientStop_client, hreset]
      exact .failed (.inr ⟨_, hfail.1⟩)
    · rw [setClient_client, hc]
      have hb : (c.backedOff io).state ≠ .initReboot := by
        simp [DhcpClient.backedOff, h]
      simp only [if_neg hb]
      exact .requested h
  · rw [hc]
    exact .waiting (.inr (.inr h))

theorem resendAt_renewal {t : Nat}
    (hs : s.client.state = .renewing ∨ s.client.state = .rebinding) :
    Resends io s.client (resendAt (cb.call io) io t s).client := by
  unfold resendAt
  split
  · next hfail =>
    rw [clientStop_client]
    exact .failed (.inr ⟨_, hfail⟩)
  have hne : s.client.state ≠ .initReboot := by
    obtain h | h := hs <;> simp [h]
  unfold resendMessage
  obtain h | h := hs <;> simp only [setClient_client, h]
  all_goals split
  case inl.isTrue hfail | inr.isTrue hfail =>
    rw [clientStop_client]
    exact .failed (.inr ⟨_, hfail.1⟩)
  · rw [setClient_client, setClient_client, if_neg hne]
    exact .renewal (.inl h)
  · rw [setClient_client, setClient_client, if_neg hne]
    exact .renewal (.inr h)

theorem clientTimeoutResend_client :
    Resends io s.client (clientTimeoutResend (cb.call io) io s).client := by
  unfold clientTimeoutResend
  split
  · next hfail =>
    rw [clientStop_client]
    exact .failed (.inr ⟨_, hfail⟩)
  next hnow =>
  have hback (hs : s.client.state = .init ∨ s.client.state = .initReboot ∨
      s.client.state = .selecting ∨ s.client.state = .requesting ∨ s.client.state = .bound) :
      Resends io s.client (resendAt (cb.call io) io
        (io.now + ((if s.client.attempt < 64 then s.client.attempt * 2 else s.client.attempt) - 1) *
          100000) (s.setClient fun c =>
        { c with attempt := if c.attempt < 64 then c.attempt * 2 else c.attempt })).client := by
    unfold resendAt
    split
    · next hfail =>
      rw [clientStop_client]
      exact .failed (.inr ⟨_, hfail⟩)
    · exact resendMessage_client rfl hs
  cases hs : s.client.state with
  | renewing => exact resendAt_renewal (.inl hs)
  | rebinding => exact resendAt_renewal (.inr hs)
  | rebooting =>
    obtain ⟨hstart, hfail⟩ := @restart_client υ cb io s
    dsimp only
    split
    · next hneg =>
      obtain ⟨hbind, hreset⟩ := hfail hneg
      rw [clientStop_client, hreset]
      exact .restart hs (Int.not_lt.mp hnow) (.failed hbind)
    · exact .restart hs (Int.not_lt.mp hnow) hstart
  | init => exact hback (.inl hs)
  | initReboot => exact hback (.inr (.inl hs))
  | selecting => exact hback (.inr (.inr (.inl hs)))
  | requesting => exact hback (.inr (.inr (.inr (.inl hs))))
  | bound => exact hback (.inr (.inr (.inr (.inr hs))))
  | stopped =>
    dsimp only
    rw [clientStop_client]
    exact .failed (.inl hs)

theorem clientTimeoutT1_client : Renews io s.client (clientTimeoutT1 (cb.call io) io s).client := by
  unfold clientTimeoutT1
  obtain ⟨-, h⟩ | h := @initializeTimeEvents_client υ cb io
    (s.setClient fun c => { c with state := .renewing, attempt := 1 }) <;> rw [h]
  · exact .failed
  · exact .armed

theorem clientTimeoutT2_client :
    (clientTimeoutT2 (cb.call io) io s).client = s.client.reset ∨
      Events io { s.client with
        receiveMessage := false, fd := some .raw, state := .rebinding, attempt := 1 }
        (clientTimeoutT2 (cb.call io) io s).client := by
  unfold clientTimeoutT2
  dsimp only
  split
  · rw [clientStop_client]
    exact .inl rfl
  · exact .inr (initializeEvents_client rfl)

theorem clientTimeoutExpire_client :
    (clientTimeoutExpire (cb.call io) io s).client = s.client.stop ∨
      (s.client.state = .stopped ∧ (clientTimeoutExpire (cb.call io) io s).client = s.client) ∨
      Starts io s.client.renewed (clientTimeoutExpire (cb.call io) io s).client := by
  unfold clientTimeoutExpire
  dsimp only
  obtain h | h := cb.client_call io .expired s
  · rw [h]
    split
    · next hs => exact .inr (.inl ⟨hs, h⟩)
    · refine .inr (.inr ?_)
      rw [← h]
      exact restart_client.1
  · rw [h, if_pos (show s.client.stop.state = .stopped from rfl)]
    exact .inl h

/-! ### Messages -/

theorem acknowledge_client {l : Lease} {t : Attached υ}
    (h : acknowledge (cb.call io) io l s = .ok t) : Binds s.client l t.client := by
  obtain ⟨c, ⟨u1, u2, d1, d2, d3, rfl⟩, ⟨r, -, rfl⟩ | ⟨-, rfl⟩ | rfl⟩ :=
    acknowledge_cases h
  · rw [clientStop_client]
    exact .failed
  · unfold clientNotify
    split
    · rw [clientStop_client]
      exact .failed
    · obtain hcb | hcb := cb.client_call io _ _ <;> rw [hcb, clientStop_client]
      · exact .failed
      · exact .stopped
  · unfold clientNotify
    split
    · exact .bound rfl
    · obtain hcb | hcb := cb.client_call io _ _ <;> rw [hcb]
      · exact .bound rfl
      · exact .stopped

theorem refuse_client :
    io.result .bindRaw < 0 ∧ (refuse (cb.call io) io s).client = s.client.reset ∨
      ∃ c, Starts io s.client.reset c ∧ (refuse (cb.call io) io s).client =
        { c with startDelay := max 500000 (min (c.startDelay * 2) 2000000) } := by
  have hstart := @clientStartDelayed_client υ cb io (s.setClient DhcpClient.reset) _ rfl rfl rfl
    (.inl rfl)
  unfold refuse
  dsimp only
  split
  · next hneg =>
    obtain ⟨hbind, hreset⟩ := hstart.2 hneg
    rw [clientStop_client, hreset]
    exact .inl ⟨hbind, rfl⟩
  · exact .inr ⟨_, hstart.1, rfl⟩

/-- Messages for other transactions are ignored. -/
theorem receive_other {m : Message} {c : DhcpClient}
    (hx : ¬((c.state = .bound ∧ c.fd ≠ some .raw) ∨ m.xid = c.xid)) :
    c.accepted m = none ∧ c.refused m = false := by
  have hxid : m.xid ≠ c.xid := fun h => hx (.inr h)
  constructor
  · unfold DhcpClient.accepted
    split
    · rw [if_neg fun h => hxid h.2]
    · rfl
  · simp [DhcpClient.refused, hxid]

end Attached

open Attached

/-- A message that is not a reply, or that comes when none is awaited, changes no count. -/
theorem DhcpClient.not_awaited {m : Message} {c : DhcpClient} (h : c.awaitsReply = false) :
    c.accepted m = none ∧ c.refused m = false := by
  constructor
  · unfold DhcpClient.accepted
    split
    · simp [h]
    · rfl
  · simp [DhcpClient.refused, h]

theorem clientHandleMessage_awaited {cb : ClientEvent → Attached υ → Attached υ} {io : Io}
    {s : Attached υ} (hw : s.client.awaitsReply = true) (b : Body) :
    clientHandleMessage cb io b s =
      match b with
      | .ack o =>
        match o.acknowledged with
        | none => .ok s
        | some l => acknowledge cb io l s
      | .nak => .ok (refuse cb io s)
      | _ => .ok s := by
  obtain ⟨c, u⟩ := s
  cases c
  simp only [DhcpClient.awaitsReply, Bool.or_eq_true, decide_eq_true_eq] at hw
  obtain ((rfl | rfl) | rfl) | rfl := hw <;> cases b <;> rfl

/-- A reply that is awaited binds the client or has it start over. -/
theorem reply_move {cb : Callback υ} {io : Io} {m : Message} {s t : Attached υ}
    (hw : s.client.awaitsReply = true) (hx : m.xid = s.client.xid)
    (h : clientHandleMessage (cb.call io) io m.body s = .ok t) :
    Move io s.client (.receive m) t.client := by
  rw [clientHandleMessage_awaited hw] at h
  have href : s.client.refused m = decide (m.body = .nak) := by simp [DhcpClient.refused, hw, hx]
  cases hb : m.body with
  | ack o =>
    have hacc : s.client.accepted m = o.acknowledged := by
      simp [DhcpClient.accepted, hb, hw, hx]
    simp only [hb] at h href
    cases hl : o.acknowledged with
    | none =>
      simp only [hl] at h hacc
      cases h
      exact .ignored hacc (by rw [href]; rfl)
    | some l =>
      simp only [hl] at h hacc
      exact .ack hacc (acknowledge_client h)
  | nak =>
    simp only [hb] at h href
    cases h
    obtain ⟨hbind, hr⟩ | ⟨c, hstart, hr⟩ := @refuse_client υ cb io s <;> rw [hr]
    · exact .nakFailed href hbind
    · exact .nak href hstart
  | offer o =>
    simp only [hb] at h href
    cases h
    exact .ignored (by simp [DhcpClient.accepted, hb]) (by rw [href]; rfl)
  | forcerenew =>
    simp only [hb] at h href
    cases h
    exact .ignored (by simp [DhcpClient.accepted, hb]) (by rw [href]; rfl)
  | other =>
    simp only [hb] at h href
    cases h
    exact .ignored (by simp [DhcpClient.accepted, hb]) (by rw [href]; rfl)

theorem receive_move {cb : Callback υ} {io : Io} {m : Message} {s t : Attached υ}
    (h : clientReceiveMessage (cb.call io) io m s = .ok t) :
    Move io s.client (.receive m) t.client := by
  unfold clientReceiveMessage at h
  split at h
  swap
  · next hx =>
    cases h
    obtain ⟨ha, hr⟩ := receive_other hx
    exact .ignored ha hr
  next hx =>
  by_cases hw : s.client.awaitsReply = true
  · refine reply_move hw ?_ h
    obtain ⟨hb, -⟩ | hx := hx
    · simp [DhcpClient.awaitsReply, hb] at hw
    · exact hx
  obtain ⟨ha, hr⟩ := @DhcpClient.not_awaited m s.client (by simpa using hw)
  unfold clientHandleMessage at h
  split at h
  · next hs _ =>
    split at h
    · cases h
      exact .ignored ha hr
    · dsimp only at h
      split at h <;> cases h
      · rw [clientStop_client]
        exact .offerFailed hs
      · exact .offer hs
  iterate 8
    · next hs _ => simp [DhcpClient.awaitsReply, hs] at hw
  · next hs _ =>
    cases h
    exact .forcerenew hs clientTimeoutT1_client
  · next hs =>
    cases h
    rw [clientStop_client]
    exact .invalid hs
  · cases h
    exact .ignored ha hr

/-- Every step of a client is one of the moves. -/
theorem ClientStep.move {cb : Callback υ} {io : Io} {call : ClientCall} {c c' : DhcpClient}
    (h : ClientStep cb c (io, call) c') : Move io c call c' := by
  cases h with | @act _ _ u s _ h =>
  cases call with
  | start =>
    cases h
    exact .start (sdDhcpClientStart_client (s := ⟨c, u⟩))
  | stop =>
    cases h
    unfold sdDhcpClientStop
    rw [setClient_client, clientStop_client]
    exact .stop
  | setMac =>
    cases h
    unfold sdDhcpClientSetMac
    split
    · next hs => exact .setMacIdle hs
    next hs =>
    dsimp only
    rw [clientStop_client, if_neg (by simp [DhcpClient.reset])]
    refine .setMac hs ?_
    have hstart := @sdDhcpClientStart_client υ cb io (clientStop (cb.call io) .stop ⟨c, u⟩)
    rwa [clientStop_client] at hstart
  | setIaidDuid =>
    cases h
    unfold sdDhcpClientSetIaidDuid
    split
    · next hs => exact .setIaidDuidIdle hs
    next hs =>
    refine .setIaidDuid hs ?_
    have hstart := @sdDhcpClientStart_client υ cb io (clientStop (cb.call io) .stop ⟨c, u⟩)
    rwa [clientStop_client] at hstart
  | receive m =>
    simp only [Attached.act] at h
    split at h
    · exact receive_move (Option.some.inj h)
    · cases h
  | resend =>
    obtain ⟨t, ht, h⟩ := Option.map_eq_some_iff.mp h
    cases h
    exact .resend ht (clientTimeoutResend_client (s := ⟨c, u⟩))
  | t1 =>
    obtain ⟨t, ht, h⟩ := Option.map_eq_some_iff.mp h
    cases h
    exact .t1 ht (clientTimeoutT1_client
      (s := setClient (fun c => { c with timeoutT1 := none }) ⟨c, u⟩))
  | t2 =>
    obtain ⟨t, ht, h⟩ := Option.map_eq_some_iff.mp h
    cases h
    obtain hr | he := @clientTimeoutT2_client υ cb io
      (setClient (fun c => { c with timeoutT2 := none }) ⟨c, u⟩)
    · rw [hr]
      exact .t2Failed ht
    · exact .t2 ht he
  | expire =>
    obtain ⟨t, ht, h⟩ := Option.map_eq_some_iff.mp h
    cases h
    obtain hr | ⟨hs, hr⟩ | hr := @clientTimeoutExpire_client υ cb io
      (setClient (fun c => { c with timeoutExpire := none }) ⟨c, u⟩)
    · rw [hr]
      exact .expireStopped ht
    · rw [hr]
      exact .expireIdle ht hs
    · exact .expire ht hr

/-! ## The client of the daemon -/

namespace Attached

variable {io : Io} {s t : Iface}

theorem enterFailed_client (s : Iface) :
    s.enterFailed.client = s.client ∨ s.enterFailed.client = s.client.stop := by
  unfold enterFailed
  split
  · exact .inl rfl
  · exact .inr rfl

theorem updateAddress_client (lease : Lease) (s : Iface) :
    (updateAddress io lease s).client = s.client ∨
      (updateAddress io lease s).client = s.client.stop := by
  unfold updateAddress
  dsimp only
  split
  · exact enterFailed_client _
  · exact .inl rfl

theorem leaseAcquired_client (s : Iface) :
    (leaseAcquired io s).client = s.client ∨ (leaseAcquired io s).client = s.client.stop := by
  unfold leaseAcquired
  split
  · exact enterFailed_client _
  · exact updateAddress_client _ _

theorem dhcp4Handler_client (io : Io) (e : ClientEvent) (s : Iface) :
    (dhcp4Handler io e s).client = s.client ∨ (dhcp4Handler io e s).client = s.client.stop := by
  unfold dhcp4Handler
  split
  · exact .inl rfl
  cases e with
  | stop => exact .inl (loseLease_client io s)
  | expired => exact .inl (loseLease_client io s)
  | ipChange =>
    have h := @leaseAcquired_client io (loseLease io s)
    rwa [loseLease_client] at h
  | ipAcquire => exact leaseAcquired_client s
  | renew =>
    dsimp only
    unfold leaseRenew
    split
    · exact enterFailed_client _
    · exact updateAddress_client _ _
  | error r => exact .inl rfl

theorem setDhcpRoutes_stop (h : setDhcpRoutes io s = .ok t) :
    t.client = s.client ∨ t.client = s.client.stop := by
  unfold setDhcpRoutes at h
  split at h
  · cases h
  dsimp only at h
  split at h
  · cases h
    exact .inl rfl
  split at h
  · cases h
    exact .inl rfl
  split at h
  · cases h
    exact enterFailed_client _
  · cases h
    exact .inl rfl

theorem failOn_client (f : Failure) (r : Int) (s : Iface) :
    (if isError r eexist then failWith f r s else s).client = s.client ∨
      (if isError r eexist then failWith f r s else s).client = s.client.stop := by
  split
  · exact enterFailed_client _
  · exact .inl rfl

/-- A reply stops the client if it makes the link fail, and does nothing else to it. -/
theorem handleReply_stop {r : Int} {q : Request} (h : handleReply io r s q = .ok t) :
    t.client = s.client ∨ t.client = s.client.stop := by
  cases q with
  | newAddr a =>
    obtain hs | hs := failOn_client .setAddress r s <;> obtain ht | ht := setDhcpRoutes_stop h <;>
      rw [ht, hs]
    · exact .inl rfl
    · exact .inr rfl
    · exact .inr rfl
    · exact .inr rfl
  | newRoute route =>
    simp only [handleReply, routeHandler] at h
    split at h
    · cases h
    next n _ =>
    have hs := failOn_client .setRoute r (s.mapLink fun l => { l with dhcp4Messages := n })
    split at h
    · rw [map_ok_client h]
      exact hs
    · cases h
      exact hs
  | delRoute _ | delAddr _ | setLink =>
    simp only [handleReply, noteFailure] at h
    cases h
    left
    split
    · rfl
    split <;> rfl

end Attached

/-- The program of the client is the daemon. -/
def dhcp4Callback : Callback Link := ⟨dhcp4Handler, dhcp4Handler_client⟩

/-- The client of `t` comes from that of `s` by calls to it. -/
def ClientFollows (s t : Iface) : Prop :=
  ∃ es, Run (ClientStep dhcp4Callback) s.client es t.client

namespace ClientFollows

variable {io : Io} {s t u : Iface}

theorem of_eq (h : t.client = s.client) : ClientFollows s t := ⟨[], h ▸ .nil _⟩

theorem trans (h : ClientFollows s t) (g : ClientFollows t u) : ClientFollows s u := by
  obtain ⟨es, h⟩ := h
  obtain ⟨fs, g⟩ := g
  exact ⟨es ++ fs, h.trans g⟩

theorem call {call : ClientCall} (hsend : s.client.Sends (io, call))
    (h : act dhcp4Callback io s call = some (.ok t)) : ClientFollows s t :=
  ⟨[(io, call)], .single (.act hsend h)⟩

theorem stop (h : t.client = s.client ∨ t.client = s.client.stop) : ClientFollows s t := by
  obtain h | h := h
  · exact of_eq h
  · have hstop : ClientFollows s (sdDhcpClientStop (dhcp4Handler (quietIo 0)) s) :=
      @call (quietIo 0) s _ .stop (fun h => nomatch h) rfl
    refine hstop.trans (of_eq ?_)
    unfold sdDhcpClientStop
    rw [h, setClient_client, show dhcp4Handler (quietIo 0) =
      dhcp4Callback.call (quietIo 0) from rfl, clientStop_client]
    rfl

theorem start (io : Io) (s : Iface) :
    ClientFollows s (sdDhcpClientStart (dhcp4Handler io) io s).2 :=
  @call io s _ .start (fun h => nomatch h) rfl

theorem changeMac (io : Nat → Io) (mac : Option Nat) (s : Iface) :
    ClientFollows s (s.changeMac io mac) := by
  unfold Attached.changeMac
  split
  · exact of_eq rfl
  next mac =>
  split
  · exact of_eq rfl
  refine trans (t := sdDhcpClientSetMac (dhcp4Handler (io 1)) (io 1)
    (s.mapLink fun l => { l with mac := mac })) ?_ ?_
  · exact @call (io 1) (s.mapLink fun l => { l with mac := mac })
      _ .setMac (fun h => nomatch h) rfl
  · exact @call (io 2) _ _ .setIaidDuid (fun h => nomatch h) rfl

theorem carrierGained (io : Io) (s : Iface) : ClientFollows s (s.carrierGained io) := by
  have hstart : ClientFollows s
      (sdDhcpClientStart (dhcp4Handler io) io (s.logLink .acquiringLease)).2 :=
    start io (s.logLink .acquiringLease)
  unfold Attached.carrierGained
  dsimp only
  split
  · exact of_eq rfl
  unfold acquireConf
  dsimp only
  by_cases hr : (sdDhcpClientStart (dhcp4Handler io) io (s.logLink .acquiringLease)).1 < 0
  · simp only [if_pos hr]
    refine hstart.trans (stop ?_)
    exact enterFailed_client _
  · simp only [if_neg hr, Int.lt_irrefl, if_false]
    exact hstart

theorem linkUpdate (io : Nat → Io) (m : LinkMessage) (s : Iface) :
    ClientFollows s (s.linkUpdate io m) := by
  have hmac (s : Iface) :
      ClientFollows s (Attached.mapLink (fun l => { l with carrier := m.carrier })
        (s.changeMac io m.mac)) := (changeMac io m.mac s).trans (of_eq rfl)
  have hcarrier (s : Iface) (b : Bool) : ClientFollows s
      (if ¬b ∧ m.carrier then Attached.carrierGained (io 0) (s.logLink .gainedCarrier)
        else if b ∧ ¬m.carrier then carrierLost (io 0) (s.logLink .lostCarrier) else s) := by
    split
    · exact (of_eq rfl).trans (carrierGained (io 0) (s.logLink .gainedCarrier))
    split
    · exact @call (io 0) (s.logLink .lostCarrier) _ .stop (fun h => nomatch h) rfl
    · exact of_eq rfl
  refine trans (of_eq ?_) ((hmac _).trans (hcarrier _ _))
  split <;> rfl

/-- Every event of the daemon is a run of its client. -/
theorem handle {io : Nat → Io} {e : Event} (hsend : s.client.Sends (io 0, .resend))
    (h : s.handle io e = some (.ok t)) : ClientFollows s t := by
  cases e with
  | newLink m =>
    cases h
    exact linkUpdate io m s
  | delLink =>
    cases h
    refine of_eq ?_
    unfold linkDrop
    split <;> rfl
  | newAddr a ready => exact of_eq (map_ok_client (Option.some.inj h))
  | delAddr a => exact of_eq (map_ok_client (Option.some.inj h))
  | reply i r =>
    obtain ⟨q, -, h⟩ := Option.map_eq_some_iff.mp h
    have hc := handleReply_stop h
    exact stop hc
  | receive m => exact @call (io 0) s t (.receive m) (fun h => nomatch h) h
  | resend => exact @call (io 0) s t .resend hsend h
  | t1 => exact @call (io 0) s t .t1 (fun h => nomatch h) h
  | t2 => exact @call (io 0) s t .t2 (fun h => nomatch h) h
  | expire => exact @call (io 0) s t .expire (fun h => nomatch h) h

end ClientFollows

end CarFi.Roamingd

import CarFi.Roamingd.ClientRuns

/-!
# The socket and the lease of a state

While a lease is requested or held the client has one, and the socket fits the state: raw while the
client has no address to use or has given up its server, and bound to the address of the lease
while it deals with the server. The timers keep this up as long as T1 does not fire after T2, which
nothing rules out: `client_timeout_t2` leaves T1 armed.
-/
namespace CarFi.Roamingd

open Library Attached

/-- The lease and the socket that a state calls for. -/
structure DhcpClient.SocketFits (c : DhcpClient) : Prop where
  lease : c.state = .requesting ∨ c.state = .bound ∨ c.state = .renewing ∨
    c.state = .rebinding → c.lease.isSome
  raw : c.state = .selecting ∨ c.state = .requesting ∨ c.state = .rebinding → c.fd = some .raw
  udp : c.state = .bound ∨ c.state = .renewing → ∃ l, c.lease = some l ∧
    c.fd = some (.udp l.address)

namespace DhcpClient

def Unarmed (c : DhcpClient) : Prop := c.timeoutT1 = none ∧ c.timeoutT2 = none

def Bound (c : DhcpClient) : Prop := ∃ l, c.lease = some l ∧ c.fd = some (.udp l.address)

/-- What the steps of a client keep, state by state: T1 and T2 are armed only while a lease is
held, and a client that starts has no other socket than a raw one. -/
def Sound (c : DhcpClient) : Prop :=
  match c.state with
  | .init | .initReboot => c.Unarmed ∧ (c.fd = none ∨ c.fd = some .raw)
  | .selecting => c.Unarmed ∧ c.fd = some .raw
  | .requesting => c.Unarmed ∧ c.fd = some .raw ∧ c.lease.isSome
  | .rebooting | .stopped => c.Unarmed
  | .bound | .renewing => c.Bound
  | .rebinding => c.fd = some .raw ∧ c.lease.isSome

namespace Sound

variable {io : Io} {c c' : DhcpClient}

theorem fits (h : c.Sound) : c.SocketFits := by
  unfold Sound at h
  constructor <;> intro hs <;> grind [Bound]

theorem reset (c : DhcpClient) : c.reset.Sound := ⟨⟨rfl, rfl⟩, .inl rfl⟩

theorem stop (c : DhcpClient) : c.stop.Sound := ⟨rfl, rfl⟩

theorem events (hc : c.Sound) (h : Events io c c') : c'.Sound := by
  cases h with
  | failed => exact reset c
  | deaf => exact reset c
  | armed => exact hc

theorem starts (hs : c.state = .init ∨ c.state = .initReboot) (ht : c.Unarmed)
    (h : Starts io c c') : c'.Sound := by
  cases h with
  | failed _ => exact reset c
  | events h =>
    refine events ?_ h
    unfold Sound
    dsimp only
    obtain hs | hs := hs <;> rw [hs] <;> exact ⟨ht, .inr rfl⟩

theorem prepared (h : Starts io c.prepared c') : c'.Sound := by
  refine starts ?_ ⟨rfl, rfl⟩ h
  unfold DhcpClient.prepared
  split
  · exact .inl rfl
  · exact .inr rfl

/-- A renewal starts on the socket of the lease. -/
theorem renews (hc : c.Bound) (h : Renews io c c') : c'.Sound := by
  cases h with
  | failed => exact reset c
  | armed => exact hc

theorem resends (hc : c.Sound)
    (hsend : c.fd = none → io.result .sendDiscover < 0 ∧ io.result .sendRequest < 0)
    (h : Resends io c c') : c'.Sound := by
  cases h with
  | failed => exact reset c
  | renewal hs => exact hc
  | restart _ _ h => exact starts (.inl rfl) ⟨rfl, rfl⟩ h
  | discovered hs hsent =>
    simp only [Sound, hs] at hc
    obtain ⟨ht, hfd | hfd⟩ := hc
    · exact absurd (hsend hfd).1 (Int.not_lt.mpr hsent)
    · exact ⟨ht, hfd⟩
  | waiting hs => exact hc
  | rebooting hs =>
    simp only [Sound, hs] at hc
    exact hc.1
  | requested hs => exact hc

end Sound

/-- Once the client rebinds, T1 is no longer to fire. -/
def InOrder (c : DhcpClient) (e : Io × ClientCall) : Prop := e.2 = .t1 → c.state ≠ .rebinding

theorem Sound.move {io : Io} {call : ClientCall} {c c' : DhcpClient} (hc : c.Sound)
    (hsend : c.Sends (io, call)) (hord : c.InOrder (io, call)) (h : Move io c call c') :
    c'.Sound := by
  cases h with
  | start h => exact .prepared h
  | stop => exact .stop c
  | setMacIdle _ => exact hc
  | setMac _ h => exact .prepared h
  | setIaidDuidIdle _ => exact hc
  | setIaidDuid _ h => exact .prepared h
  | resend _ h => exact .resends hc (hsend rfl) h
  | t1 ht h =>
    have hs := hord rfl
    have hb : c.Bound := by
      unfold Sound at hc
      grind [Unarmed]
    exact .renews (show DhcpClient.Bound { c with timeoutT1 := none } from hb) h
  | t2Failed _ => exact .reset c
  | t2 ht h =>
    have hl : c.lease.isSome := by
      unfold Sound at hc
      grind [Unarmed, Bound]
    refine .events ?_ h
    exact ⟨rfl, hl⟩
  | expireStopped _ => exact .stop c
  | expireIdle _ _ => exact hc
  | expire _ h => exact .starts (.inl rfl) ⟨rfl, rfl⟩ h
  | ignored _ _ => exact hc
  | invalid _ => exact .reset c
  | offer hs =>
    simp only [Sound, hs] at hc
    exact ⟨hc.1, hc.2, rfl⟩
  | offerFailed _ => exact .reset c
  | forcerenew hs h =>
    refine .renews ?_ h
    simpa only [Sound, hs] using hc
  | ack _ h =>
    cases h with
    | failed => exact .reset c
    | stopped => exact .stop c
    | bound hl => exact ⟨_, rfl, by rw [hl]⟩
  | nakFailed _ => exact .reset c
  | @nak _ c' _ h =>
    have hs : c'.Sound := .starts (.inl rfl) ⟨rfl, rfl⟩ h
    exact hs

theorem Sound.step {υ : Type} {cb : Callback υ} {c c' : DhcpClient} {e : Io × ClientCall}
    (hc : c.Sound) (h : Guarded InOrder (ClientStep cb) c e c') : c'.Sound := by
  obtain ⟨hord, hstep⟩ := h
  obtain ⟨io, call⟩ := e
  have hmove := hstep.move
  cases hstep with
  | act hsend _ => exact hc.move hsend hord hmove

end DhcpClient

/-! ## Every order of the timers -/

/-- If T1 never fires once the client rebinds, the lease and the socket fit the state all along. -/
theorem socketFits_of_run {υ : Type} {cb : Callback υ} {address : InAddr}
    {es : List (Io × ClientCall)} {c : DhcpClient}
    (h : Run (Guarded DhcpClient.InOrder (ClientStep cb)) { lastAddr := address } es c) :
    c.SocketFits :=
  have hnew : DhcpClient.Sound { lastAddr := address } := ⟨⟨rfl, rfl⟩, .inl rfl⟩
  (h.invariant (fun _ _ _ hc hstep => DhcpClient.Sound.step hc hstep) hnew).fits

instance (c : DhcpClient) (e : Io × ClientCall) : Decidable (c.InOrder e) :=
  inferInstanceAs (Decidable (_ → _))

/-- A lease of an hour is renewed, and then rebound, at the times to which the timers are set. -/
theorem socketFits_rebinding : ∃ c : DhcpClient,
    Run (Guarded DhcpClient.InOrder (ClientStep quietCallback)) { lastAddr := 0 }
      (timed (leaseHeld sampleOptions ++ [(1799600007, ClientCall.t1), (1799600007, .resend),
        (3148475007, .t2), (3148475007, .resend)])) c ∧
      c.state = .rebinding ∧ c.SocketFits := by
  obtain ⟨c, hrun, hc⟩ := @DhcpClient.run_of_any Unit quietCallback () DhcpClient.InOrder _
    { lastAddr := 0 }
    (timed (leaseHeld sampleOptions ++ [(1799600007, ClientCall.t1), (1799600007, .resend),
      (3148475007, .t2), (3148475007, .resend)])) (fun c => c.state = .rebinding)
    (by decide +kernel)
  exact ⟨c, hrun, of_decide_eq_true hc, socketFits_of_run hrun⟩

/-- The server gives a T1 of 3500 seconds, which is armed after T2. The client rebinds on a raw
socket, and when T1 fires at last it renews the lease through it. -/
theorem renewal_on_raw_socket : ∃ c : DhcpClient,
    Run (ClientStep quietCallback) { lastAddr := 0 }
      (timed (leaseHeld { sampleOptions with t1 := 3500 } ++ [(1799600007, ClientCall.t2),
        (1799600007, .resend), (3498100007, .t1)])) c ∧
      c.state = .renewing ∧ c.fd = some .raw := by
  obtain ⟨c, hrun, hc⟩ := @DhcpClient.run_of_any Unit quietCallback () (fun _ _ => True) _
    { lastAddr := 0 }
    (timed (leaseHeld { sampleOptions with t1 := 3500 } ++ [(1799600007, ClientCall.t2),
      (1799600007, .resend), (3498100007, .t1)]))
    (fun c => c.state = .renewing ∧ c.fd = some .raw) (by decide +kernel)
  exact ⟨c, hrun.of_guarded, of_decide_eq_true hc⟩

end CarFi.Roamingd

import CarFi.Roamingd.ClientRuns

/-!
# How long the client waits

Two delays grow while a client gets no lease: the time to the next message in one state, which
doubles with every firing of the resend timer, and the time to the first message of a start, which
doubles with every refusal. Neither is kept as a count in the client. The counts are history
variables here, and the delays are given in closed form over every run.
-/
namespace CarFi.Roamingd

open Library

variable {υ : Type}

/-! ## Retransmissions -/

namespace DhcpClient

/-- The states in which a lease is acquired and the number of attempts counts. -/
def Acquiring (c : DhcpClient) : Prop :=
  c.state = .init ∨ c.state = .initReboot ∨ c.state = .selecting ∨ c.state = .requesting

/-- A call enters a state. The resend timer and a message do if the state changes, a new identifier
does if the client is running; the other calls always do, if only from a state to itself. -/
def enters (c : DhcpClient) (call : ClientCall) (c' : DhcpClient) : Bool :=
  match call with
  | .resend | .receive _ => c.state ≠ c'.state
  | .setMac | .setIaidDuid => ¬(c.state = .init ∨ c.state = .stopped)
  | _ => true

/-- How often the resend timer has fired since the state was entered. -/
def firings (c : DhcpClient) (e : Io × ClientCall) (c' : DhcpClient) (k : Nat) : Nat :=
  if c.enters e.2 c' then 0 else if e.2 = .resend then k + 1 else k

/-- The number of attempts is a power of two, and while the timer is armed in a state in which a
lease is acquired it is the one of the firings. -/
structure Paced (c : DhcpClient) (k : Nat) : Prop where
  pow : ∃ n ≤ 6, c.attempt = 2 ^ n
  acquiring : c.Acquiring → c.timeoutResend.isSome → c.attempt = min (2 ^ k) 64

end DhcpClient

theorem pow_double {a n : Nat} (hn : n ≤ 6) (ha : a = 2 ^ n) :
    ∃ m ≤ 6, (if a < 64 then a * 2 else a) = 2 ^ m := by
  split
  · next hlt =>
    refine ⟨n + 1, ?_, by rw [ha, Nat.pow_succ]⟩
    by_contra hle
    have : n = 6 := by omega
    subst this
    omega
  · exact ⟨n, hn, ha⟩

theorem min_double (k : Nat) :
    (if min (2 ^ k) 64 < 64 then min (2 ^ k) 64 * 2 else min (2 ^ k) 64) =
      min (2 ^ (k + 1)) 64 := by
  obtain hk | hk : k ≤ 5 ∨ 6 ≤ k := by omega
  · have hle : 2 ^ k ≤ 2 ^ 5 := Nat.pow_le_pow_right (by omega) hk
    rw [Nat.pow_succ]
    split <;> omega
  · have hle : 2 ^ 6 ≤ 2 ^ k := Nat.pow_le_pow_right (by omega) hk
    rw [Nat.pow_succ]
    split <;> omega

namespace DhcpClient.Paced

variable {io : Io} {c c' : DhcpClient} {k : Nat}

theorem unarmed (ha : c.attempt = 1) (ht : c.timeoutResend = none) : c.Paced k := by
  refine ⟨⟨0, by omega, ha⟩, fun _ hsome => ?_⟩
  simp [ht] at hsome

/-- A state is entered with the first attempt. -/
theorem first (h : c.attempt = 1) : c.Paced 0 :=
  ⟨⟨0, by omega, h⟩, fun _ _ => h⟩

theorem other (hpow : ∃ n ≤ 6, c.attempt = 2 ^ n) (hs : ¬c.Acquiring) : c.Paced k :=
  ⟨hpow, fun h => absurd h hs⟩

theorem events (h : Events io c c') (hc : c.attempt = 1) : c'.Paced 0 := by
  cases h with
  | failed _ => exact unarmed rfl rfl
  | deaf => exact first rfl
  | armed => exact first hc

theorem starts (h : Starts io c c') (hc : c.attempt = 1) : c'.Paced 0 := by
  cases h with
  | failed _ => exact unarmed rfl rfl
  | events h => exact events h hc

/-- One more attempt in the same state. -/
theorem backedOff (h : c.Paced k) (ht : c.timeoutResend.isSome) :
    (c.backedOff io).Paced (k + 1) := by
  obtain ⟨n, hn, ha⟩ := h.pow
  refine ⟨pow_double hn ha, fun hs _ => ?_⟩
  have hk := h.acquiring hs ht
  simp only [DhcpClient.backedOff, hk]
  exact min_double k

theorem resends (h : c.Paced k) (ht : c.timeoutResend.isSome) (hr : Resends io c c') :
    c'.Paced (firings c (io, .resend) c' k) := by
  have hsame (hs : c.state = c'.state) : firings c (io, .resend) c' k = k + 1 := by
    simp [firings, enters, hs]
  have hnew (hs : c.state ≠ c'.state) : firings c (io, .resend) c' k = 0 := by
    simp [firings, enters, hs]
  have hb : (c.backedOff io).Paced (k + 1) := h.backedOff ht
  cases hr with
  | failed _ => exact unarmed rfl rfl
  | renewal hs =>
    have hn : ¬c.Acquiring := by
      rintro (h | h | h | h) <;> simp [h] at hs
    exact other h.pow hn
  | restart hs _ hstart =>
    have hinit : c'.state = .init := by
      cases hstart with
      | failed _ => rfl
      | events hev => cases hev <;> rfl
    rw [hnew (by simp [hs, hinit])]
    exact starts hstart rfl
  | discovered hs _ =>
    rw [hnew (by simp [hs])]
    exact first rfl
  | waiting hs =>
    rw [hsame rfl]
    exact hb
  | rebooting hs =>
    refine other hb.pow ?_
    rintro (h | h | h | h) <;> cases h
  | requested hs =>
    rw [hsame rfl]
    exact ⟨hb.pow, hb.acquiring⟩

/-- A message counts as an entry if it changes the state. -/
theorem receives {m : Message} (h : c.Paced k) (hm : Move io c (.receive m) c') :
    c'.Paced (firings c (io, .receive m) c' k) := by
  have hnew (hs : c.state ≠ c'.state) : firings c (io, .receive m) c' k = 0 := by
    simp [firings, enters, hs]
  cases hm with
  | ignored _ _ =>
    rw [show firings c (io, .receive m) c k = k by simp [firings, enters]]
    exact h
  | invalid _ => exact unarmed rfl rfl
  | offer hs =>
    rw [hnew (by simp [hs])]
    exact first rfl
  | offerFailed _ => exact unarmed rfl rfl
  | forcerenew _ hr =>
    cases hr with
    | failed => exact unarmed rfl rfl
    | armed =>
      refine other ⟨0, by omega, rfl⟩ ?_
      rintro (h | h | h | h) <;> cases h
  | ack _ hb =>
    cases hb with
    | failed => exact unarmed rfl rfl
    | stopped => exact unarmed rfl rfl
    | bound _ =>
      refine other ⟨0, by omega, rfl⟩ ?_
      rintro (h | h | h | h) <;> cases h
  | nakFailed _ _ => exact unarmed rfl rfl
  | @nak _ c' hr hstart =>
    have hinit : c'.state = .init := by
      cases hstart with
      | failed _ => rfl
      | events hev => cases hev <;> rfl
    have hs : c.state ≠ .init := by
      intro hs
      simp [DhcpClient.refused, awaitsReply, hs] at hr
    rw [hnew (by simpa [hinit] using hs)]
    have hp : c'.Paced 0 := starts hstart rfl
    exact ⟨hp.pow, hp.acquiring⟩

theorem move {call : ClientCall} (h : c.Paced k) (hm : Move io c call c') :
    c'.Paced (firings c (io, call) c' k) := by
  cases call with
  | receive m => exact h.receives hm
  | resend => cases hm with
    | resend ht hr => exact h.resends (by simp [ht]) hr
  | start => cases hm with
    | start hstart => exact starts hstart rfl
  | stop => cases hm with
    | stop => exact unarmed rfl rfl
  | setMac => cases hm with
    | setMacIdle hs => simpa [firings, enters, hs] using h
    | setMac hs hstart => simpa [firings, enters, hs] using starts hstart rfl
  | setIaidDuid => cases hm with
    | setIaidDuidIdle hs => simpa [firings, enters, hs] using h
    | setIaidDuid hs hstart => simpa [firings, enters, hs] using starts hstart rfl
  | t1 => cases hm with
    | t1 ht hr => cases hr with
      | failed => exact unarmed rfl rfl
      | armed => exact first rfl
  | t2 => cases hm with
    | t2Failed ht => exact unarmed rfl rfl
    | t2 ht hev => exact events hev rfl
  | expire => cases hm with
    | expireStopped ht => exact unarmed rfl rfl
    | expireIdle ht hs =>
      have hn : ¬c.Acquiring := by
        rintro (h | h | h | h) <;> simp [h] at hs
      exact other h.pow hn
    | expire ht hstart => exact starts hstart rfl

theorem step {cb : Callback υ} {p q : DhcpClient × Nat} {e : Io × ClientCall}
    (h : p.1.Paced p.2) (hs : Watched firings (ClientStep cb) p e q) : q.1.Paced q.2 := by
  obtain ⟨hstep, hk⟩ := hs
  rw [hk]
  exact h.move hstep.move

end DhcpClient.Paced

/-- The bounds on the time to the next message after the resend timer has fired for the `k`-th time
in a state. -/
structure BackoffDelay (k d : Nat) : Prop where
  least : (min (2 ^ k) 64 - 1) * 100000 ≤ d
  most : d ≤ (min (2 ^ k) 64 - 1) * 100000 + 1048575
  gap : 100000 ≤ d ∧ d ≤ 7348575

theorem backoffDelay (k : Nat) (r : UInt32) :
    BackoffDelay (k + 1) ((min (2 ^ (k + 1)) 64 - 1) * 100000 + r.toNat % 2 ^ 20) := by
  have hr : r.toNat % 2 ^ 20 < 2 ^ 20 := Nat.mod_lt _ (by omega)
  have hpow : 0 < 2 ^ k := Nat.two_pow_pos k
  have htwo : 2 ≤ 2 ^ (k + 1) := by
    rw [Nat.pow_succ]
    omega
  constructor <;> omega

/-- While a lease is acquired, the timer that fires arms the next one, unless an error stops the
client. -/
theorem Resends.timer {io : Io} {c c' : DhcpClient} (h : Resends io c c') (hs : c.Acquiring) :
    (∃ call, io.result call < 0) ∧ c' = c.reset ∨
      c'.timeoutResend = (c.backedOff io).timeoutResend := by
  cases h with
  | failed hfail =>
    obtain hstop | hfail := hfail
    · rcases hs with h | h | h | h <;> simp [h] at hstop
    · exact .inl ⟨hfail, rfl⟩
  | renewal hst => rcases hs with h | h | h | h <;> simp [h] at hst
  | restart hst _ _ => rcases hs with h | h | h | h <;> simp [h] at hst
  | discovered _ _ => exact .inr rfl
  | waiting _ => exact .inr rfl
  | rebooting _ => exact .inr rfl
  | requested _ => exact .inr rfl

/-- In every run, with `k` firings of the resend timer since the state was entered, the number of
attempts is a power of two up to 64, the next firing arms the timer again within the bounds of the
`k + 1`-st, and the products of the delay stay within their types. -/
theorem resend_backoff {cb : Callback υ} {address : InAddr}
    {es : List (Io × ClientCall)} {c : DhcpClient} {k : Nat}
    (h : Run (Watched DhcpClient.firings (ClientStep cb)) ({ lastAddr := address }, 0) es (c, k)) :
    (∃ n ≤ 6, c.attempt = 2 ^ n) ∧
    (∀ io c', c.Acquiring → ClientStep cb c (io, .resend) c' →
      (∃ call, io.result call < 0) ∧ c' = c.reset ∨
        ∃ d, c'.timeoutResend = some (io.now + d) ∧ BackoffDelay (k + 1) d) ∧
    ∀ io, c.attempt * 2 < 2 ^ 32 ∧ ((c.backedOff io).attempt - 1) * 100 < 2 ^ 32 ∧
      ((c.backedOff io).attempt - 1) * 100 * 1000 < 2 ^ 64 := by
  have hp : c.Paced k :=
    Run.invariant (I := fun p : DhcpClient × Nat => p.1.Paced p.2) (fun _ _ _ hp hs => hp.step hs)
      h (DhcpClient.Paced.first rfl)
  refine ⟨hp.pow, fun io c' hs hstep => ?_, fun io => ?_⟩
  · cases hstep.move with
    | resend ht hr =>
      refine (hr.timer hs).imp id fun htimer => ?_
      have ha := hp.acquiring hs (by simp [ht])
      refine ⟨_, ?_, backoffDelay k (io.random .resend)⟩
      rw [htimer, ← min_double k, ← ha, ← Nat.add_assoc]
      rfl
  · obtain ⟨n, hn, ha⟩ := hp.pow
    have hle : 2 ^ n ≤ 2 ^ 6 := Nat.pow_le_pow_right (by omega) hn
    simp only [DhcpClient.backedOff]
    split <;> omega

/-- Nobody answers: the third DISCOVER is followed by a wait for the second firing. -/
theorem resend_backoff_selecting : ∃ c : DhcpClient, c.state = .selecting ∧
    ∀ io c', c.Acquiring → ClientStep quietCallback c (io, .resend) c' →
      (∃ call, io.result call < 0) ∧ c' = c.reset ∨
        ∃ d, c'.timeoutResend = some (io.now + d) ∧ BackoffDelay 2 d := by
  obtain ⟨⟨c, k⟩, hrun, hp⟩ :=
    @DhcpClient.watched_of_any Unit quietCallback () DhcpClient.firings ({ lastAddr := 0 }, 0)
      (timed [(1000000, .start), (1000000, .resend), (1100007, .resend)])
    (fun p => p.1.state = .selecting ∧ p.2 = 1) (by decide +kernel)
  simp only [decide_eq_true_eq] at hp
  obtain ⟨hs, rfl⟩ := hp
  exact ⟨c, hs, (resend_backoff hrun).2.1⟩

/-! ## Refusals -/

/-- The start delay of the restart that the `k`-th refusal in a row causes, in microseconds. -/
def nakDelay : Nat → Nat
  | 0 | 1 => 0
  | k + 2 => min 2000000 (500000 * 2 ^ k)

theorem nakDelay_succ (k : Nat) :
    max 500000 (min (nakDelay (k + 1) * 2) 2000000) = nakDelay (k + 2) := by
  cases k with
  | zero => rfl
  | succ k =>
    have hpow : 0 < 2 ^ k := Nat.two_pow_pos k
    simp only [nakDelay, Nat.pow_succ]
    omega

namespace DhcpClient

/-- The refusals in a row: an acknowledgement that is accepted and a fresh start through
`client_start` begin a new row. -/
def naks (c : DhcpClient) (e : Io × ClientCall) (c' : DhcpClient) (k : Nat) : Nat :=
  match e.2 with
  | .receive m => if c.refused m then k + 1 else if (c.accepted m).isSome then 0 else k
  | .start => 0
  | .setMac | .setIaidDuid => if c.state = .init ∨ c.state = .stopped then k else 0
  -- the request for the last address was not answered
  | .resend => if c.state = .rebooting ∧ 0 ≤ e.1.result .eventNow then 0 else k
  -- the lease was lost, and the callback has not stopped the client
  | .expire => if c'.state = .stopped then k else 0
  | .stop | .t1 | .t2 => k

/-- Nothing can happen to the client but a start. -/
structure Quiescent (c : DhcpClient) : Prop where
  state : c.state = .init ∨ c.state = .stopped
  resend : c.timeoutResend = none
  t1 : c.timeoutT1 = none
  t2 : c.timeoutT2 = none
  expire : c.timeoutExpire = none

theorem quiescent_reset (c : DhcpClient) : c.reset.Quiescent := ⟨.inl rfl, rfl, rfl, rfl, rfl⟩

theorem quiescent_stop (c : DhcpClient) : c.stop.Quiescent := ⟨.inr rfl, rfl, rfl, rfl, rfl⟩

/-- The client has the start delay of the next refusal ready, unless it is idle. -/
def Delayed (c : DhcpClient) (k : Nat) : Prop := c.Quiescent ∨ c.startDelay = nakDelay (k + 1)

namespace Delayed

variable {io : Io} {c c' : DhcpClient} {k : Nat}

theorem of_events (h : Events io c c') : c'.startDelay = c.startDelay := by
  cases h <;> rfl

theorem of_starts (h : Starts io c c') : c'.startDelay = c.startDelay := by
  cases h with
  | failed _ => rfl
  | events h => cases h <;> rfl

theorem fresh (h : Starts io c c') (hc : c.startDelay = 0) : c'.Delayed 0 :=
  .inr ((of_starts h).trans hc)

theorem running (h : c.Delayed k) (hc : ¬c.Quiescent) : c.startDelay = nakDelay (k + 1) :=
  h.resolve_left hc

theorem resends (h : c.Delayed k) (ht : c.timeoutResend.isSome) (hr : Resends io c c') :
    c'.Delayed (naks c (io, .resend) c' k) := by
  have hdelay : c.startDelay = nakDelay (k + 1) := by
    refine h.running fun hc => ?_
    simp [hc.resend] at ht
  have hk (hs : c.state ≠ .rebooting) : naks c (io, .resend) c' k = k := by
    simp [naks, hs]
  cases hr with
  | failed _ => exact .inl (quiescent_reset c)
  | renewal hs =>
    rw [hk (by obtain h | h := hs <;> simp [h])]
    exact .inr hdelay
  | restart hs hnow hstart =>
    rw [show naks c (io, .resend) c' k = 0 by simp [naks, hs, hnow]]
    exact fresh hstart rfl
  | discovered hs _ =>
    rw [hk (by simp [hs])]
    exact .inr hdelay
  | waiting hs =>
    rw [hk (by obtain ⟨h, -⟩ | h | h := hs <;> simp [h])]
    exact .inr hdelay
  | rebooting hs =>
    rw [hk (by simp [hs])]
    exact .inr hdelay
  | requested hs =>
    rw [hk (by simp [hs])]
    exact .inr hdelay

theorem not_quiescent {m : Message} (hm : c.refused m = true) : ¬c.Quiescent := by
  intro hc
  obtain h | h := hc.state <;> simp [DhcpClient.refused, awaitsReply, h] at hm

theorem receives {m : Message} (h : c.Delayed k) (hm : Move io c (.receive m) c') :
    c'.Delayed (naks c (io, .receive m) c' k) := by
  have hk (ha : c.accepted m = none) (hr : c.refused m = false) :
      naks c (io, .receive m) c' k = k := by simp [naks, ha, hr]
  have hother (hs : c.awaitsReply = false) : naks c (io, .receive m) c' k = k :=
    hk (not_awaited hs).1 (not_awaited hs).2
  cases hm with
  | ignored ha hr =>
    rw [hk ha hr]
    exact h
  | invalid _ => exact .inl (quiescent_reset c)
  | offer hs =>
    rw [hother (by simp [awaitsReply, hs])]
    exact .inr (h.running fun hc => by obtain h | h := hc.state <;> simp [h] at hs)
  | offerFailed _ => exact .inl (quiescent_reset c)
  | forcerenew hs hr =>
    cases hr with
    | failed => exact .inl (quiescent_reset c)
    | armed =>
      rw [hother (by simp [awaitsReply, hs])]
      exact .inr (h.running fun hc => by obtain h | h := hc.state <;> simp [h] at hs)
  | @ack _ l _ ha hb =>
    have hr : c.refused m = false := by
      cases hbody : m.body <;> simp [accepted, hbody] at ha
      simp [DhcpClient.refused, hbody]
    rw [show naks c (io, .receive m) c' k = 0 by simp [naks, ha, hr]]
    cases hb <;> exact .inr rfl
  | nakFailed _ _ => exact .inl (quiescent_reset c)
  | nak hr hstart =>
    rw [show naks c (io, .receive m) _ k = k + 1 by simp [naks, hr]]
    right
    dsimp only
    rw [of_starts hstart, ← nakDelay_succ, ← h.running (not_quiescent hr)]
    rfl

theorem move {call : ClientCall} (h : c.Delayed k) (hm : Move io c call c') :
    c'.Delayed (naks c (io, call) c' k) := by
  cases call with
  | receive m => exact h.receives hm
  | resend => cases hm with
    | resend ht hr => exact h.resends (by simp [ht]) hr
  | start => cases hm with
    | start hstart => exact fresh hstart rfl
  | stop => cases hm with
    | stop => exact .inl (quiescent_stop c)
  | setMac => cases hm with
    | setMacIdle hs => simpa [naks, hs] using h
    | setMac hs hstart => simpa [naks, hs] using fresh hstart rfl
  | setIaidDuid => cases hm with
    | setIaidDuidIdle hs => simpa [naks, hs] using h
    | setIaidDuid hs hstart => simpa [naks, hs] using fresh hstart rfl
  | t1 => cases hm with
    | t1 ht hr => cases hr with
      | failed => exact .inl (quiescent_reset _)
      | armed => exact .inr (h.running fun hc => by simp [hc.t1] at ht)
  | t2 => cases hm with
    | t2Failed ht => exact .inl (quiescent_reset c)
    | t2 ht hev => exact .inr ((of_events hev).trans (h.running fun hc => by simp [hc.t2] at ht))
  | expire => cases hm with
    | expireStopped ht => exact .inl (quiescent_stop c)
    | expireIdle ht hs =>
      simpa [naks, hs] using .inr (h.running fun hc => by simp [hc.expire] at ht)
    | expire ht hstart =>
      have hs : c'.state ≠ .stopped := by
        cases hstart with
        | failed _ => simp [DhcpClient.reset]
        | events hev => cases hev <;> simp [DhcpClient.renewed, DhcpClient.reset]
      simpa [naks, hs] using fresh hstart rfl

theorem step {cb : Callback υ} {p q : DhcpClient × Nat} {e : Io × ClientCall}
    (h : p.1.Delayed p.2) (hs : Watched naks (ClientStep cb) p e q) : q.1.Delayed q.2 := by
  obtain ⟨hstep, hk⟩ := hs
  rw [hk]
  exact h.move hstep.move

end Delayed

end DhcpClient

/-- A refusal restarts the client, unless it gets no socket. -/
theorem Move.refusal {io : Io} {m : Message} {c c' : DhcpClient} (h : Move io c (.receive m) c')
    (hm : c.refused m = true) :
    io.result .bindRaw < 0 ∧ c' = c.reset ∨ ∃ d, Starts io c.reset d ∧
      c' = { d with startDelay := max 500000 (min (d.startDelay * 2) 2000000) } := by
  have hw : c.awaitsReply = true := by
    simp only [DhcpClient.refused, Bool.and_eq_true] at hm
    exact hm.1.1
  cases h with
  | ignored _ hr => simp [hm] at hr
  | invalid hs | offer hs | offerFailed hs | forcerenew hs _ =>
    simp [DhcpClient.awaitsReply, hs] at hw
  | ack ha _ =>
    cases hbody : m.body <;> simp [DhcpClient.accepted, hbody] at ha
    simp [DhcpClient.refused, hbody] at hm
  | nakFailed _ hfail => exact .inl ⟨hfail, rfl⟩
  | nak _ hstart => exact .inr ⟨_, hstart, rfl⟩

/-- The client waits for its resend timer: until the program starts or stops it nothing else
changes it, and the message that the timer sends is a DISCOVER. -/
structure DhcpClient.Waits (cb : Callback υ) (c : DhcpClient) : Prop where
  alone : ∀ e c', ClientStep cb c e c' → e.2 = .start ∨ e.2 = .stop ∨
    e.2 = .resend ∨ c' = c
  discovers : ∀ io c', ClientStep cb c (io, .resend) c' → (∀ call, 0 ≤ io.result call) →
    c'.state = .selecting

theorem DhcpClient.waits {cb : Callback υ} {c : DhcpClient} (hs : c.state = .init)
    (ht1 : c.timeoutT1 = none) (ht2 : c.timeoutT2 = none) (he : c.timeoutExpire = none) :
    c.Waits cb := by
  constructor
  · rintro ⟨io, call⟩ c' hstep
    have hw : c.awaitsReply = false := by simp [awaitsReply, hs]
    cases hstep.move with
    | start _ | stop | resend _ _ => simp
    | setMacIdle _ | setIaidDuidIdle _ | ignored _ _ => simp
    | setMac hn _ | setIaidDuid hn _ => exact absurd (.inl hs) hn
    | t1 ht _ => simp [ht1] at ht
    | t2Failed ht | t2 ht _ => simp [ht2] at ht
    | expireStopped ht | expireIdle ht _ | expire ht _ => simp [he] at ht
    | invalid hs' | offer hs' | offerFailed hs' | forcerenew hs' _ => simp [hs] at hs'
    | ack ha _ => simp [(not_awaited hw).1] at ha
    | nakFailed hr _ | nak hr _ => simp [(not_awaited hw).2] at hr
  · intro io c' hstep hio
    cases hstep.move with
    | resend _ hr => cases hr with
      | failed hfail =>
        obtain hstop | ⟨call, hneg⟩ := hfail
        · simp [hs] at hstop
        · exact absurd (hio call) (Int.not_le.mpr hneg)
      | renewal hs' => simp [hs] at hs'
      | restart hs' _ _ | rebooting hs' | requested hs' => simp [hs] at hs'
      | discovered _ _ => rfl
      | waiting hs' =>
        obtain ⟨-, hneg⟩ | hs' | hs' := hs'
        · exact absurd (hio _) (Int.not_le.mpr hneg)
        · simp [hs] at hs'
        · simp [hs] at hs'

/-- In every run, with `k` refusals in a row so far, the next one restarts the client with the
start delay of the `k + 1`-st, unless an error stops it. -/
theorem nak_backoff {cb : Callback υ} {address : InAddr} {es : List (Io × ClientCall)}
    {c : DhcpClient} {k : Nat}
    (h : Run (Watched DhcpClient.naks (ClientStep cb)) ({ lastAddr := address }, 0) es (c, k)) :
    ∀ io m c', c.refused m = true → ClientStep cb c (io, .receive m) c' →
      (∃ call, io.result call < 0) ∧ c'.timeoutResend = none ∨
        c'.state = .init ∧ c'.Waits cb ∧ c'.timeoutResend =
          some (if nakDelay (k + 1) = 0 then 0 else io.now + nakDelay (k + 1)) := by
  intro io m c' hm hstep
  have hd : c.Delayed k :=
    Run.invariant (I := fun p : DhcpClient × Nat => p.1.Delayed p.2)
      (fun _ _ _ hp hs => hp.step hs) h (.inr rfl)
  have hdelay : c.reset.startDelay = nakDelay (k + 1) :=
    hd.running (DhcpClient.Delayed.not_quiescent hm)
  obtain ⟨hfail, rfl⟩ | ⟨d, hstart, rfl⟩ := hstep.move.refusal hm
  · exact .inl ⟨⟨_, hfail⟩, rfl⟩
  rw [← hdelay]
  cases hstart with
  | failed hfail => exact .inl ⟨⟨_, hfail⟩, rfl⟩
  | events hev =>
    cases hev with
    | failed hfail => exact .inl ⟨⟨_, hfail⟩, rfl⟩
    | deaf => exact .inr ⟨rfl, DhcpClient.waits rfl rfl rfl rfl, rfl⟩
    | armed => exact .inr ⟨rfl, DhcpClient.waits rfl rfl rfl rfl, rfl⟩

/-- An offer is refused twice; the third refusal is to delay the client by one second. -/
theorem nak_backoff_requesting : ∃ c : DhcpClient, c.refused ⟨7, .nak⟩ = true ∧
    ∀ io c', ClientStep quietCallback c (io, .receive ⟨7, .nak⟩) c' →
      (∃ call, io.result call < 0) ∧ c'.timeoutResend = none ∨
        c'.state = .init ∧ c'.Waits quietCallback ∧
          c'.timeoutResend = some (io.now + 1000000) := by
  obtain ⟨⟨c, k⟩, hrun, hp⟩ :=
    @DhcpClient.watched_of_any Unit quietCallback () DhcpClient.naks ({ lastAddr := 0 }, 0)
      (timed [(1000000, .start), (1000000, .resend),
        (1100000, .receive ⟨7, .offer sampleOptions⟩), (1100000, .receive ⟨7, .nak⟩),
      (1100000, .resend), (1200000, .receive ⟨7, .offer sampleOptions⟩),
      (1200000, .receive ⟨7, .nak⟩), (1700000, .resend),
      (1800000, .receive ⟨7, .offer sampleOptions⟩)])
    (fun p => p.1.refused ⟨7, .nak⟩ = true ∧ p.2 = 2) (by decide +kernel)
  simp only [decide_eq_true_eq] at hp
  obtain ⟨hm, rfl⟩ := hp
  exact ⟨c, hm, fun io c' hstep => nak_backoff hrun io _ c' hm hstep⟩

end CarFi.Roamingd

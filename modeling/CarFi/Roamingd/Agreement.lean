import CarFi.Roamingd.LinkEvents

/-!
# The lease of the client and the lease of the link

The client and the link each keep a lease. The client tells the link of what it acquires and of
what it gives up by a stop or an expiry; of a refusal or an error it does not. The two agree in
every run without these.
-/
namespace CarFi.Roamingd

open Library Attached

namespace DhcpClient

/-- The client has a lease that was acknowledged. -/
def Holds (c : DhcpClient) : Prop :=
  c.state = .bound ∨ c.state = .renewing ∨ c.state = .rebinding

/-- The client has no lease, and no timer of one. -/
structure Bare (c : DhcpClient) : Prop where
  state : ¬c.Holds
  t1 : c.timeoutT1 = none
  t2 : c.timeoutT2 = none
  expire : c.timeoutExpire = none

/-- The client has the lease `l`. -/
structure Has (l : Lease) (c : DhcpClient) : Prop where
  state : c.Holds
  lease : c.lease = some l

/-- The client waits for nothing. -/
structure Idle (c : DhcpClient) : Prop where
  running : ¬c.IsRunning
  receive : c.receiveMessage = false
  resend : c.timeoutResend = none

theorem Bare.getLease {c : DhcpClient} (h : c.Bare) : c.getLease = none := if_neg h.state

theorem Has.getLease {l : Lease} {c : DhcpClient} (h : c.Has l) : c.getLease = some l :=
  (if_pos h.state).trans h.lease

theorem reset_bare (c : DhcpClient) : c.reset.Bare := ⟨by simp [Holds, reset], rfl, rfl, rfl⟩

end DhcpClient

namespace Attached

/-! ## A client without a lease -/

section
variable {υ : Type} {cb : ClientEvent → Attached υ → Attached υ} {io : Io}

theorem initializeIoEvents_bare {s : Attached υ} (h : s.client.Bare) :
    (initializeIoEvents cb io s).client.Bare := by
  unfold initializeIoEvents
  split
  · exact DhcpClient.reset_bare _
  · exact { h with }

theorem initializeTimeEvents_bare {s : Attached υ} (h : s.client.Bare) :
    (initializeTimeEvents cb io s).client.Bare := by
  unfold initializeTimeEvents
  split
  · exact DhcpClient.reset_bare _
  · exact { h with }

theorem clientStartDelayed_bare {s : Attached υ} (h : s.client.Bare) :
    (clientStartDelayed cb io s).2.client.Bare := by
  unfold clientStartDelayed
  split; · exact h
  split; · exact h
  split; · exact h
  dsimp only
  split
  · exact DhcpClient.reset_bare _
  · exact initializeTimeEvents_bare (initializeIoEvents_bare { h with })

/-- A client that starts anew has no lease. -/
theorem sdDhcpClientStart_bare (s : Attached υ) : (sdDhcpClientStart cb io s).2.client.Bare := by
  refine clientStartDelayed_bare ⟨?_, rfl, rfl, rfl⟩
  simp only [DhcpClient.Holds, setClient_client]
  split <;> simp

theorem refuse_bare (s : Attached υ) : (refuse cb io s).client.Bare := by
  have h := @clientStartDelayed_bare υ cb io (s.setClient DhcpClient.reset)
    (DhcpClient.reset_bare _)
  unfold refuse
  dsimp only
  split
  · exact DhcpClient.reset_bare _
  · exact { h with }

theorem resendMessage_bare {s : Attached υ} (h : s.client.Bare) :
    (resendMessage cb io s).client.Bare := by
  have hstate := h.state
  unfold DhcpClient.Holds at hstate
  unfold resendMessage
  split
  · split
    · exact { h with state := by simp [DhcpClient.Holds] }
    split
    · exact DhcpClient.reset_bare _
    · exact h
  · split
    · exact DhcpClient.reset_bare _
    · exact h
  iterate 4
    · next hs =>
      split
      · exact DhcpClient.reset_bare _
      · refine { h with state := ?_ }
        simp_all [DhcpClient.Holds]
  · exact h
  · exact h
  · exact DhcpClient.reset_bare _

theorem resendAt_bare {n : Nat} {s : Attached υ} (h : s.client.Bare) :
    (resendAt cb io n s).client.Bare := by
  unfold resendAt
  split
  · exact DhcpClient.reset_bare _
  · exact resendMessage_bare { h with }

theorem clientTimeoutResend_bare {s : Attached υ} (h : s.client.Bare) :
    (clientTimeoutResend cb io s).client.Bare := by
  have hstart : (clientStart cb io (s.setClient DhcpClient.reset)).2.client.Bare :=
    clientStartDelayed_bare { DhcpClient.reset_bare s.client with }
  unfold clientTimeoutResend
  split
  · exact DhcpClient.reset_bare _
  split
  · exact resendAt_bare h
  · exact resendAt_bare h
  · dsimp only
    split
    · exact DhcpClient.reset_bare _
    · exact hstart
  iterate 5
    · exact resendAt_bare { h with }
  · exact DhcpClient.reset_bare _

/-! ## A client with a lease -/

theorem initializeTimeEvents_has {s : Attached υ} {l : Lease} (hio : ∀ c, 0 ≤ io.result c)
    (h : s.client.Has l) : (initializeTimeEvents cb io s).client.Has l := by
  unfold initializeTimeEvents
  rw [if_neg (Int.not_lt.mpr (hio _))]
  exact { h with }

theorem resendMessage_has {s : Attached υ} {l : Lease} (hio : ∀ c, 0 ≤ io.result c)
    (h : s.client.Has l) : (resendMessage cb io s).client.Has l := by
  have hneg (c : Call) (p : Prop) : ¬(io.result c < 0 ∧ p) := fun h => Int.not_lt.mpr (hio c) h.1
  obtain hs | hs | hs := h.state
  · simpa only [resendMessage, hs] using h
  · simp only [resendMessage, hs, if_neg (hneg _ _), setClient]
    exact ⟨.inr (.inl (by simp)), h.lease⟩
  · simp only [resendMessage, hs, if_neg (hneg _ _), setClient]
    exact ⟨.inr (.inr (by simp)), h.lease⟩

theorem clientTimeoutResend_has {s : Attached υ} {l : Lease} (hio : ∀ c, 0 ≤ io.result c)
    (h : s.client.Has l) : (clientTimeoutResend cb io s).client.Has l := by
  have hneg (c : Call) : ¬io.result c < 0 := Int.not_lt.mpr (hio c)
  have hat (n : Nat) {s : Attached υ} (h : s.client.Has l) :
      (resendAt cb io n s).client.Has l := by
    unfold resendAt
    rw [if_neg (hneg _)]
    exact resendMessage_has hio { h with }
  unfold clientTimeoutResend
  rw [if_neg (hneg _)]
  obtain hs | hs | hs := h.state <;> rw [hs]
  · exact hat _ { h with }
  · exact hat _ h
  · exact hat _ h

theorem clientTimeoutT1_has {s : Attached υ} {l : Lease} (hio : ∀ c, 0 ≤ io.result c)
    (h : s.client.Has l) : (clientTimeoutT1 cb io s).client.Has l :=
  initializeTimeEvents_has hio ⟨.inr (.inl rfl), h.lease⟩

theorem clientTimeoutT2_has {s : Attached υ} {l : Lease} (hio : ∀ c, 0 ≤ io.result c)
    (h : s.client.Has l) : (clientTimeoutT2 cb io s).client.Has l := by
  have hneg (c : Call) : ¬io.result c < 0 := Int.not_lt.mpr (hio c)
  unfold clientTimeoutT2
  dsimp only
  rw [if_neg (hneg _)]
  refine initializeTimeEvents_has hio ?_
  unfold initializeIoEvents
  rw [if_neg (hneg _)]
  exact ⟨.inr (.inr rfl), h.lease⟩

end

end Attached

/-! ## The two sides -/

/-- The link and the client have no lease, or both the same. -/
inductive Agree (s : Iface) : Prop
  | neither (hl : s.userdata.dhcpLease = none) (hc : s.client.Bare)
  | both (lease : Lease) (hl : s.userdata.dhcpLease = some lease) (hc : s.client.Has lease)

/-- The two sides agree, and without a carrier the client waits for nothing. -/
structure Coupled (s : Iface) : Prop where
  agree : Agree s
  idle : s.userdata.carrier = false → s.client.Idle

theorem Agree.congr {s t : Iface} (h : Agree s) (hl : t.userdata.dhcpLease = s.userdata.dhcpLease)
    (hc : t.client = s.client) : Agree t := by
  cases h with
  | neither hl' hc' => exact .neither (hl.trans hl') (hc ▸ hc')
  | both lease hl' hc' => exact .both lease (hl.trans hl') (hc ▸ hc')

theorem Agree.bare {s : Iface} (h : Agree s) (hs : ¬s.client.Holds) :
    s.userdata.dhcpLease = none ∧ s.client.Bare := by
  cases h with
  | neither hl hc => exact ⟨hl, hc⟩
  | both _ _ hc => exact absurd hc.state hs

theorem Agree.has {s : Iface} (h : Agree s) (hs : s.client.Holds) :
    ∃ lease, s.userdata.dhcpLease = some lease ∧ s.client.Has lease := by
  cases h with
  | neither _ hc => exact absurd hs hc.state
  | both lease hl hc => exact ⟨lease, hl, hc⟩

theorem DhcpClient.Holds.isRunning {c : DhcpClient} (h : c.Holds) : c.IsRunning := by
  obtain hs | hs | hs := h <;> simp [DhcpClient.IsRunning, hs]

/-- A client that waits for something has a carrier. -/
theorem Coupled.carrier {s : Iface} (h : Coupled s) (hw : ¬s.client.Idle) :
    s.userdata.carrier = true := by
  cases hc : s.userdata.carrier with
  | false => exact absurd (h.idle hc) hw
  | true => rfl

namespace Attached

theorem dhcp4Handler_error_lease {io : Io} {x : Option Lease} (r : Int) (s : Iface)
    (h : s.userdata.dhcpLease = x) :
    (dhcp4Handler io (.error r) s).userdata.dhcpLease = x := by
  obtain ⟨fs, hn⟩ := @dhcp4Handler_error_noted io s.userdata r s (.refl _)
  rw [hn]
  exact h

theorem stopped_lease {io : Io} {l : Link} (hup : l.state.isDown = false) :
    (l.stopped io).dhcpLease = none := by
  unfold Link.stopped
  rw [if_neg (by simp [hup])]
  exact Link.lost_dhcpLease io l

theorem failWith_isDown (f : Failure) (r : Int) (s : Iface) :
    (failWith f r s).userdata.state.isDown = true := by
  rw [failWith_userdata]
  unfold Link.failWith Link.fail
  split
  · next h => exact h
  · rfl

theorem enterFailed_isDown (s : Iface) : s.enterFailed.userdata.state.isDown = true := by
  rw [enterFailed_userdata]
  unfold Link.fail
  split
  · next h => exact h
  · rfl

/-- The address of the lease that both sides have is requested, or the link fails. -/
theorem updateAddress_agree {io : Io} {lease : Lease} {s : Iface}
    (hl : s.userdata.dhcpLease = some lease) (hc : s.client.Has lease) :
    (updateAddress io lease s).userdata.state.isDown = true ∨
      Agree (updateAddress io lease s) := by
  obtain ⟨_, _, _, _, _, _, hf⟩ := Link.updateAddress_frame io lease s.userdata
  have hlease : (updateAddress io lease s).userdata.dhcpLease = some lease := by
    rw [updateAddress_userdata, hf]
    exact hl
  by_cases hneg : io.result .addressConfigure < 0
  · refine .inl ?_
    simp only [updateAddress, Link.addressConfigure, if_pos hneg]
    exact failWith_isDown ..
  · refine .inr (.both lease hlease ?_)
    have h0 : ¬(0 : Int) < 0 := Int.lt_irrefl 0
    simp only [updateAddress, Link.addressConfigure, if_neg hneg, if_neg h0]
    exact hc

/-- The link is told of the lease that the client has got. -/
theorem dhcp4Handler_agree {io : Io} {lease : Lease} {e : ClientEvent} {s : Iface}
    (hup : s.userdata.state.isDown = false) (hc : s.client.Has lease)
    (he : e = .ipAcquire ∨ e = .ipChange ∨ e = .renew) :
    (dhcp4Handler io e s).userdata.state.isDown = true ∨ Agree (dhcp4Handler io e s) := by
  unfold dhcp4Handler
  rw [if_neg (by simp [hup])]
  obtain rfl | rfl | rfl := he <;> dsimp only
  · simp only [leaseAcquired, hc.getLease]
    exact updateAddress_agree rfl hc
  · simp only [leaseAcquired, loseLease_client, hc.getLease]
    exact updateAddress_agree rfl (by simpa using hc)
  · simp only [leaseRenew, hc.getLease]
    exact updateAddress_agree rfl hc

/-- The link is told of a lease that the client has lost again. -/
theorem dhcp4Handler_bare {io : Io} {e : ClientEvent} {s : Iface} (hc : s.client.Bare)
    (he : e = .ipAcquire ∨ e = .ipChange ∨ e = .renew) :
    (dhcp4Handler io e s).userdata.state.isDown = true := by
  unfold dhcp4Handler
  split
  · next hd => exact hd
  obtain rfl | rfl | rfl := he <;> dsimp only
  · simp only [leaseAcquired, hc.getLease]
    exact failWith_isDown ..
  · simp only [leaseAcquired, loseLease_client, hc.getLease]
    exact failWith_isDown ..
  · simp only [leaseRenew, hc.getLease]
    exact failWith_isDown ..

/-- A stop is told to the link. -/
theorem stop_agree {io : Io} {s : Iface} (hup : s.userdata.state.isDown = false) :
    Agree (clientStop (dhcp4Handler io) .stop s) := by
  refine .neither ?_ (DhcpClient.reset_bare _)
  change (dhcp4Handler io .stop s).userdata.dhcpLease = none
  rw [dhcp4Handler_stop]
  exact stopped_lease hup

/-- An error stop is not, which does no harm without a lease. -/
theorem errorStop_agree {io : Io} {r : Int} {s : Iface} (hl : s.userdata.dhcpLease = none) :
    Agree (clientStop (dhcp4Handler io) (.error r) s) :=
  .neither (dhcp4Handler_error_lease r s hl) (DhcpClient.reset_bare _)

/-! ## Messages -/

theorem ackEvent_cases (old : Option Lease) (lease : Lease) :
    ackEvent old lease = .ipAcquire ∨ ackEvent old lease = .ipChange ∨
      ackEvent old lease = .renew := by
  unfold ackEvent
  repeat' split
  all_goals simp

theorem notifyEvent_cases {c : DhcpClient} {lease : Lease} {e : ClientEvent}
    (h : notifyEvent c lease = some e) : e = .ipAcquire ∨ e = .ipChange ∨ e = .renew := by
  unfold notifyEvent at h
  split at h
  · cases h
    exact .inl rfl
  split at h
  · cases h
  · cases h
    exact ackEvent_cases c.lease lease

/-- An acknowledgement that the client was waiting for is told to the link. -/
theorem notifyEvent_isSome {c : DhcpClient} {lease : Lease}
    (h : c.lease ≠ none ∨ c.state = .requesting ∨ c.state = .rebooting) :
    ∃ e, notifyEvent c lease = some e := by
  unfold notifyEvent
  split
  · exact ⟨_, rfl⟩
  · next hs =>
    obtain hl | hl := h
    · cases hc : c.lease with
      | none => exact absurd hc hl
      | some old =>
        refine ⟨ackEvent (some old) lease, if_neg ?_⟩
        simp only [ackEvent]
        split <;> simp
    · exact absurd hl hs

theorem Timed.has {l : Lease} {c c' : DhcpClient} (h : Timed l c c') (hc : c.state = .bound) :
    ∃ l', c'.Has l' := by
  obtain ⟨u1, u2, d1, d2, d3, rfl⟩ := h
  exact ⟨_, .inl hc, rfl⟩

theorem acknowledge_agree {io : Io} {lease : Lease} {s t : Iface}
    (hup : s.userdata.state.isDown = false)
    (hio : s.userdata.dhcpLease = none ∨ ∀ c, 0 ≤ io.result c)
    (hw : ∃ e, notifyEvent s.client lease = some e)
    (h : acknowledge (dhcp4Handler io) io lease s = .ok t) :
    t.userdata.state.isDown = true ∨ Agree t := by
  obtain ⟨e, he⟩ := hw
  have hcases := notifyEvent_cases he
  obtain ⟨c, hc, ⟨r, hneg, rfl⟩ | ⟨-, rfl⟩ | rfl⟩ := acknowledge_cases h
  · exact .inr (errorStop_agree (hio.resolve_right hneg))
  · rw [he]
    exact .inl (dhcp4Handler_bare (DhcpClient.reset_bare _) hcases)
  · rw [he]
    obtain ⟨l', hhas⟩ := hc.has rfl
    exact dhcp4Handler_agree hup ⟨hhas.state, hhas.lease⟩ hcases

/-- The client is refused the lease that it wants to keep. -/
def Refuses (s : Iface) (m : Message) : Prop :=
  m.body = .nak ∧ m.xid = s.client.xid ∧
    (s.client.state = .renewing ∨ s.client.state = .rebinding)

theorem receive_agree {io : Io} {m : Message} {s t : Iface} (ha : Agree s)
    (hup : s.userdata.state.isDown = false)
    (hio : s.userdata.dhcpLease = none ∨ ∀ c, 0 ≤ io.result c) (hnak : ¬Refuses s m)
    (h : clientReceiveMessage (dhcp4Handler io) io m s = .ok t) :
    t.userdata.state.isDown = true ∨ Agree t := by
  unfold clientReceiveMessage at h
  split at h
  swap
  · cases h
    exact .inr ha
  next hxid =>
  unfold clientHandleMessage at h
  split at h
  · -- an offer
    next hs hm =>
    obtain ⟨hl, hb⟩ := ha.bare (by simp [DhcpClient.Holds, hs])
    split at h
    · cases h
      exact .inr ha
    · dsimp only at h
      split at h <;> cases h
      · exact .inr (errorStop_agree hl)
      · exact .inr (.neither hl { hb with state := by simp [DhcpClient.Holds] })
  iterate 2
    · next hs _ =>
      split at h
      · cases h
        exact .inr ha
      · exact acknowledge_agree hup hio (notifyEvent_isSome (.inr (by simp [hs]))) h
  iterate 2
    · next hs _ =>
      split at h
      · cases h
        exact .inr ha
      · obtain ⟨lease, -, hhas⟩ := ha.has (by simp [DhcpClient.Holds, hs])
        exact acknowledge_agree hup hio (notifyEvent_isSome (.inl (by simp [hhas.lease]))) h
  iterate 2
    · next hs _ =>
      obtain ⟨hl, -⟩ := ha.bare (by simp [DhcpClient.Holds, hs])
      cases h
      exact .inr (.neither
        (refuse_keeps (P := fun l : Link => l.dhcpLease = none) dhcp4Handler_error_lease hl)
          (refuse_bare s))
  iterate 2
    · next hs hm =>
      -- the transaction is that of the client, since it is not bound
      refine absurd ⟨hm, hxid.resolve_left (by simp [hs]), ?_⟩ hnak
      simp [hs]
  · next hs _ =>
    obtain ⟨lease, hl, hhas⟩ := ha.has (by simp [DhcpClient.Holds, hs])
    cases h
    refine .inr (.both lease (clientTimeoutT1_keeps (P := fun l : Link => l.dhcpLease = some lease)
      dhcp4Handler_error_lease hl) (clientTimeoutT1_has ?_ hhas))
    exact hio.resolve_left (by simp [hl])
  · next hs =>
    obtain ⟨hl, -⟩ := ha.bare (by simp [DhcpClient.Holds, hs])
    cases h
    exact .inr (errorStop_agree hl)
  · cases h
    exact .inr ha

/-! ## Replies and announcements -/

theorem setDhcpRoutes_client {io : Io} {s t : Iface} (h : setDhcpRoutes io s = .ok t) :
    t.userdata.state.isDown = true ∨ t.client = s.client := by
  unfold setDhcpRoutes at h
  split at h
  · cases h
  dsimp only at h
  split at h
  · cases h
    exact .inr rfl
  split at h
  · cases h
    exact .inr rfl
  split at h
  · cases h
    exact .inl (failWith_isDown ..)
  · cases h
    exact .inr rfl

/-- The routes of a link that has failed do not bring it up. -/
theorem setDhcpRoutes_isDown {io : Io} {s t : Iface} (h : setDhcpRoutes io s = .ok t)
    (hs : s.userdata.state.isDown = true) : t.userdata.state.isDown = true := by
  have hl : s.userdata.setDhcpRoutes io = .ok t.userdata := by
    rw [← setDhcpRoutes_userdata, h]
    rfl
  obtain ⟨lease, qs, m, -, -, ⟨fs, rfl⟩, hm | hm, -⟩ := Link.setDhcpRoutes_ok hl <;> rw [hm]
  · exact hs
  · unfold Link.fail
    split
    · exact hs
    · rfl

theorem handleReply_client {io : Io} {r : Int} {q : Request} {s t : Iface}
    (h : s.handleReply io r q = .ok t) :
    t.userdata.state.isDown = true ∨ t.client = s.client := by
  have hnote (f : Failure) (r x : Int) : (noteFailure f r x s).client = s.client := by
    unfold noteFailure
    repeat' split
    all_goals rfl
  cases q with
  | newAddr a =>
    simp only [handleReply, addressHandler] at h
    split at h
    · exact .inl (setDhcpRoutes_isDown h (failWith_isDown ..))
    · exact setDhcpRoutes_client h
  | newRoute route =>
    simp only [handleReply, routeHandler] at h
    split at h
    · cases h
    next n _ =>
    by_cases he : isError r eexist
    · simp only [he, if_true] at h
      have hd := failWith_isDown .setRoute r (s.mapLink fun l => { l with dhcp4Messages := n })
      split at h
      · exact .inl (Link.checkReady_isDown (map_ok h) hd)
      · cases h
        exact .inl hd
    · simp only [he, Bool.false_eq_true, if_false] at h
      split at h
      · exact .inr (map_ok_client h)
      · cases h
        exact .inr rfl
  | delRoute route => cases h; exact .inr (hnote ..)
  | delAddr a => cases h; exact .inr (hnote ..)
  | setLink => cases h; exact .inr (hnote ..)

theorem setMac_bare {io : Io} {s : Iface} (hrun : s.client.IsRunning) :
    (sdDhcpClientSetMac (dhcp4Handler io) io s).client.Bare := by
  unfold sdDhcpClientSetMac
  rw [if_neg hrun]
  dsimp only
  split
  · exact DhcpClient.reset_bare _
  · exact sdDhcpClientStart_bare _

theorem setIaidDuid_agree {io io' : Io} {l : Link} {s : Iface} (hl : l.state.isDown = false)
    (hn : (l.stopped io').Noted s.userdata) (h : s.client.Bare) :
    Agree (sdDhcpClientSetIaidDuid (dhcp4Handler io) io s) := by
  obtain ⟨fs, hn'⟩ := @setIaidDuid_userdata io io' l s hn
  refine .neither ?_ ?_
  · rw [hn']
    exact stopped_lease hl
  · unfold sdDhcpClientSetIaidDuid
    split
    · exact h
    · exact sdDhcpClientStart_bare _

/-- A client that does not run is not restarted. -/
theorem changeMac_idle {io : Nat → Io} {mac : Option Nat} {s : Iface} (h : ¬s.client.IsRunning) :
    (changeMac io mac s).client = s.client := by
  unfold changeMac
  split
  · rfl
  next mac =>
  split
  · rfl
  dsimp only
  obtain ⟨hc, -⟩ | ⟨hc, hs⟩ :=
    setMac_userdata (io 1) (s.mapLink fun l => { l with mac := mac })
  · exact absurd hc h
  · rw [hs, setIaidDuid_idle hc]
    rfl

theorem changeMac_agree {io : Nat → Io} {mac : Option Nat} {s : Iface}
    (hup : s.userdata.state.isDown = false) (h : Agree s) : Agree (changeMac io mac s) := by
  unfold changeMac
  split
  · exact h
  next mac =>
  split
  · exact h
  dsimp only
  obtain ⟨hc, hn⟩ | ⟨hc, hs⟩ :=
    setMac_userdata (io 1) (s.mapLink fun l => { l with mac := mac })
  · exact setIaidDuid_agree (l := { s.userdata with mac := mac }) hup hn (setMac_bare hc)
  · rw [hs, setIaidDuid_idle hc]
    exact h.congr rfl rfl

theorem acquireConf_bare (io : Io) (s : Iface) : (acquireConf io s).2.client.Bare := by
  unfold acquireConf
  dsimp only
  split <;> exact sdDhcpClientStart_bare _

theorem carrierGained_coupled {io : Io} {s : Iface} (h : Agree s)
    (hl : s.userdata.dhcpLease = none) (hc : s.userdata.carrier = true) :
    (carrierGained io s).userdata.state.isDown = true ∨ Coupled (carrierGained io s) := by
  unfold carrierGained
  dsimp only
  split
  · exact .inr ⟨h, by simp [hc]⟩
  split
  · exact .inl (enterFailed_isDown _)
  · obtain ⟨fs, hn⟩ := acquireConf_noted io s
    refine .inr ⟨.neither ?_ (acquireConf_bare io s), ?_⟩ <;> rw [hn]
    · exact hl
    · simp [hc, Link.log]

/-- A stop leaves the client idle. -/
theorem carrierLost_coupled {io : Io} {s : Iface} (hup : s.userdata.state.isDown = false) :
    Coupled (carrierLost io s) := by
  have hstop := @stop_agree io s hup
  refine ⟨.neither ?_ ⟨by simp [DhcpClient.Holds, carrierLost, sdDhcpClientStop],
    rfl, rfl, rfl⟩, fun _ =>
      ⟨by simp [DhcpClient.IsRunning, carrierLost, sdDhcpClientStop], rfl, rfl⟩⟩
  exact (hstop.bare (DhcpClient.reset_bare _).state).1

theorem linkUpdate_coupled {io : Nat → Io} {m : LinkMessage} {s : Iface} (h : Coupled s)
    (hup : s.userdata.state.isDown = false) :
    (s.linkUpdate io m).userdata.state.isDown = true ∨ Coupled (s.linkUpdate io m) := by
  have hne : s.userdata.state ≠ .linger := fun hl => by simp [hl, LinkState.isDown] at hup
  have hre : s.userdata.readded = s.userdata := if_neg hne
  have ht := @changeMac_agree io m.mac s hup h.agree
  have hsame (hr : ¬s.client.IsRunning) := @changeMac_idle io m.mac s hr
  have hr : Remade io m s (changeMac io m.mac s).userdata := by
    have hr := changeMac_remade io m s
    rwa [hre] at hr
  have hst : (changeMac io m.mac s).userdata.state = s.userdata.state := by
    rw [hr.state_eq, hre]
  unfold linkUpdate
  simp only [if_neg hne, hr.carrier]
  generalize changeMac io m.mac s = t at ht hsame hst ⊢
  split
  · next hg =>
    -- the client was idle before, so it has no lease now
    have hidle := h.idle (by simpa using hg.1)
    have hl : t.userdata.dhcpLease = none := by
      refine (ht.bare fun hh => hidle.running ?_).1
      rw [← hsame hidle.running]
      exact hh.isRunning
    have ha : Agree ((t.mapLink fun l => { l with carrier := m.carrier }).logLink .gainedCarrier) :=
      ht.congr rfl rfl
    exact carrierGained_coupled ha hl hg.2
  split
  · exact .inr (carrierLost_coupled (by simpa [hst, Link.log] using hup))
  · next h₁ h₂ =>
    have ha : Agree (t.mapLink fun l => { l with carrier := m.carrier }) := ht.congr rfl rfl
    refine .inr ⟨ha, fun hm => ?_⟩
    have hm' : m.carrier = false := hm
    have hidle := h.idle (by cases hs : s.userdata.carrier <;> simp_all)
    rw [mapLink_client, hsame hidle.running]
    exact hidle

/-! ## New links -/

theorem enterSetRoutes_client {s t : Iface} (h : enterSetRoutes s = .ok t) :
    t.client = s.client :=
  map_ok_client h

theorem enterJoinNetdev_client {io : Io} {up : Bool} {r : Int} {s t : Iface}
    (h : enterJoinNetdev io up s = .ok (r, t)) (hr : ¬r < 0) : t.client = s.client := by
  have hmap {x : Except Abort Iface} (h : (x.map fun s => ((0 : Int), s)) = .ok (r, t)) :
      x = .ok t := by
    cases x with
    | error a => cases h
    | ok s => cases h; rfl
  unfold enterJoinNetdev at h
  dsimp only at h
  split at h
  · exact enterSetRoutes_client (hmap h)
  split at h
  · next hneg =>
    cases h
    exact absurd hneg hr
  · have hc := enterSetRoutes_client (hmap h)
    exact hc

/-- A link that is added has no lease, and its client is started only with a carrier. -/
theorem linkAdd_coupled {io : Io} {m : LinkMessage} {r : Int} {t : Iface}
    (h : linkAdd io m = .ok (r, t)) (hf : Fresh m t.userdata) :
    t.userdata.state.isDown = true ∨ Coupled t := by
  have hnew : (linkNew m).client.Bare ∧ (linkNew m).client.Idle := by
    refine ⟨⟨?_, rfl, rfl, rfl⟩, ⟨?_, rfl, rfl⟩⟩
    · simp [DhcpClient.Holds, linkNew]
    · simp [DhcpClient.IsRunning, linkNew]
  unfold linkAdd at h
  dsimp only at h
  split at h
  swap
  · cases h
    exact .inr ⟨.neither hf.lease hnew.1, fun _ => hnew.2⟩
  split at h
  · cases h
  next hconf =>
  split at h
  · cases h
    exact .inl (enterFailed_isDown _)
  next r' s hr =>
  cases h
  unfold configure at hconf
  split at hconf
  · next hneg =>
    cases hconf
    exact absurd hneg hr
  split at hconf
  · next hcar =>
    dsimp only at hconf
    split at hconf
    · next hneg =>
      cases hconf
      exact absurd hneg hr
    · refine .inr ⟨.neither hf.lease ?_, ?_⟩
      · rw [enterJoinNetdev_client hconf hr]
        exact acquireConf_bare io _
      · have hm : m.carrier = true := (linkNew_fresh m).1.carrier.symm.trans hcar
        simp [hf.carrier, hm]
  · have hc := enterJoinNetdev_client hconf hr
    refine .inr ⟨.neither hf.lease ?_, fun _ => ?_⟩ <;> rw [hc]
    · exact hnew.1
    · exact hnew.2

end Attached

/-! ## Runs -/

/-- No event but an announcement changes the carrier. -/
theorem Effect.carrier {io : Nat → Io} {s : Iface} {e : Event} {l : Link} (h : Effect io s e l)
    (he : ∀ m, e ≠ .newLink m) : l.carrier = s.userdata.carrier := by
  have hnoted {l l' : Link} (h : l.Noted l') : l'.carrier = l.carrier := by
    obtain ⟨fs, rfl⟩ := h
    rfl
  have hupdate (io : Io) (lease : Lease) (l : Link) :
      (l.updateAddress io lease).carrier = l.carrier := by
    obtain ⟨_, _, _, _, _, _, hf⟩ := Link.updateAddress_frame io lease l
    rw [hf]
  have hfail (f : Failure) (r : Int) (l : Link) : (l.failWith f r).carrier = l.carrier := by
    obtain ⟨_, _, hf, -⟩ := Link.failWith_frame f r l
    rw [hf]
  have hlost (io : Io) (l : Link) : (l.lost io).carrier = l.carrier := by
    unfold Link.lost
    split
    · rfl
    · rw [Link.leaseLost_eq]
      rfl
  have hacquired (io : Io) (x : Option Lease) (l : Link) :
      (l.acquired io x).carrier = l.carrier := by
    cases x with
    | none => exact hfail ..
    | some lease => exact hupdate ..
  cases h with
  | carrierSame _ _ => exact absurd rfl (he _)
  | carrierGained _ _ _ _ => exact absurd rfl (he _)
  | carrierLost _ _ _ => exact absurd rfl (he _)
  | delLink =>
    unfold Link.dropped
    split <;> rfl
  | newAddr h => obtain ⟨_, _, rfl | ⟨-, rfl⟩⟩ := Link.newAddr_frame h <;> rfl
  | delAddr h => obtain ⟨_, _, rfl | ⟨-, rfl⟩⟩ := Link.delAddr_frame h <;> rfl
  | reply _ h =>
    obtain ⟨_, _, _, _, _, _, rfl⟩ := Link.replied_frame h
    rfl
  | ignored hn => exact hnoted hn
  | @acknowledged _ _ e l x _ _ hn _ =>
    refine Eq.trans ?_ (hnoted hn)
    unfold Link.notified
    split
    · rfl
    cases e with
    | stop => exact hlost ..
    | expired => exact hlost ..
    | ipChange => exact (hacquired ..).trans (hlost ..)
    | ipAcquire => exact hacquired ..
    | renew =>
      cases x with
      | none => exact hfail ..
      | some lease => exact hupdate ..
    | error r => rfl
  | resend hn => exact hnoted hn
  | t1 hn => exact hnoted hn
  | t2 hn => exact hnoted hn
  | expire hn => exact stopped_carrier hn

/-- The link is up; while it has a lease, no call fails and the client is not refused. -/
structure Undisturbed (o : Option Iface) (c : Occurrence) : Prop where
  up : ∀ s, o = some s → s.userdata.state.isDown = false
  calls : ∀ s, o = some s → s.userdata.dhcpLease = none ∨ ∀ call, 0 ≤ (c.io 0).result call
  accepted : ∀ s m, o = some s → c.event = .receive m → ¬Refuses s m

/-- A timer of a lease is armed only while the client has one. -/
theorem Agree.has_of_armed {s : Iface} (h : Agree s)
    (ht : s.client.timeoutT1 ≠ none ∨ s.client.timeoutT2 ≠ none ∨
      s.client.timeoutExpire ≠ none) :
    ∃ lease, s.userdata.dhcpLease = some lease ∧ s.client.Has lease := by
  cases h with
  | neither _ hc => simp [hc.t1, hc.t2, hc.expire] at ht
  | both lease hl hc => exact ⟨lease, hl, hc⟩

theorem expire_agree {io : Io} {s : Iface} (hup : s.userdata.state.isDown = false)
    (hs : s.client.Holds) : Agree (clientTimeoutExpire (dhcp4Handler io) io s) := by
  have hlost : dhcp4Handler io .expired s = loseLease io s := by
    unfold dhcp4Handler
    rw [if_neg (by simp [hup])]
  refine .neither ?_ ?_
  · obtain ⟨fs, hn⟩ := expire_noted io s
    rw [hn]
    exact stopped_lease hup
  · unfold clientTimeoutExpire
    simp only [hlost, loseLease_client]
    rw [if_neg (by obtain h | h | h := hs <;> simp [h])]
    exact clientStartDelayed_bare { DhcpClient.reset_bare s.client with }

/-- What the events other than announcements and removals do to the two sides. -/
theorem handle_agree {s t : Iface} {c : Occurrence} (h : s.handle c.io c.event = some (.ok t))
    (hs : Agree s) (hc : Undisturbed (some s) c) (he : ∀ m, c.event ≠ .newLink m)
    (hd : c.event ≠ .delLink) : t.userdata.state.isDown = true ∨ Agree t := by
  obtain ⟨io, e, sent, out⟩ := c
  have hup := hc.up s rfl
  have hio := hc.calls s rfl
  cases e with
  | newLink m => exact absurd rfl (he m)
  | delLink => exact absurd rfl hd
  | newAddr a ready =>
    have hl := map_ok (Option.some.inj h)
    refine .inr (hs.congr ?_ (map_ok_client (Option.some.inj h)))
    obtain ⟨_, _, hf | ⟨-, hf⟩⟩ := Link.newAddr_frame hl
    · rw [hf]
    · rw [hf]
      rfl
  | delAddr a =>
    have hl := map_ok (Option.some.inj h)
    refine .inr (hs.congr ?_ (map_ok_client (Option.some.inj h)))
    obtain ⟨_, _, hf | ⟨-, hf⟩⟩ := Link.delAddr_frame hl
    · rw [hf]
    · rw [hf]
      rfl
  | reply i r =>
    obtain ⟨q, -, h⟩ := Option.map_eq_some_iff.mp h
    refine (handleReply_client h).imp id fun hcl => hs.congr ?_ hcl
    have hl : Link.replied (io 0) r _ q = .ok t.userdata :=
      (handleReply_userdata (io 0) _ r q).symm.trans (congrArg (Except.map userdata) h)
    obtain ⟨_, _, _, _, _, _, hf⟩ := Link.replied_frame hl
    rw [hf]
    rfl
  | receive m =>
    simp only [Attached.handle] at h
    split at h
    · exact receive_agree hs hup hio (hc.accepted s m rfl rfl) (Option.some.inj h)
    · cases h
  | resend =>
    obtain ⟨-, -, h⟩ := Option.map_eq_some_iff.mp h
    cases h
    have hl {x : Option Lease} (hx : s.userdata.dhcpLease = x) :=
      @clientTimeoutResend_keeps Link (dhcp4Handler (io 0)) (io 0) (fun l => l.dhcpLease = x)
        dhcp4Handler_error_lease s hx
    cases hs with
    | neither hn hb => exact .inr (.neither (hl hn) (clientTimeoutResend_bare hb))
    | both lease hn hh =>
      exact .inr (.both lease (hl hn)
        (clientTimeoutResend_has (hio.resolve_left (by simp [hn])) hh))
  | t1 =>
    obtain ⟨d, hd, h⟩ := Option.map_eq_some_iff.mp h
    cases h
    obtain ⟨lease, hn, hh⟩ := hs.has_of_armed (.inl (by simp [hd]))
    refine .inr (.both lease (@clientTimeoutT1_keeps Link (dhcp4Handler (io 0)) (io 0)
      (fun l => l.dhcpLease = some lease) dhcp4Handler_error_lease _ hn) ?_)
    exact clientTimeoutT1_has (hio.resolve_left (by simp [hn])) ⟨hh.state, hh.lease⟩
  | t2 =>
    obtain ⟨d, hd, h⟩ := Option.map_eq_some_iff.mp h
    cases h
    obtain ⟨lease, hn, hh⟩ := hs.has_of_armed (.inr (.inl (by simp [hd])))
    refine .inr (.both lease (@clientTimeoutT2_keeps Link (dhcp4Handler (io 0)) (io 0)
      (fun l => l.dhcpLease = some lease) dhcp4Handler_error_lease _ hn) ?_)
    exact clientTimeoutT2_has (hio.resolve_left (by simp [hn])) ⟨hh.state, hh.lease⟩
  | expire =>
    obtain ⟨d, hd, h⟩ := Option.map_eq_some_iff.mp h
    cases h
    obtain ⟨lease, hn, hh⟩ := hs.has_of_armed (.inr (.inr (by simp [hd])))
    exact .inr (expire_agree hup hh.state)

/-- Without a carrier there is no event for the client. -/
theorem Coupled.handle_idle {s t : Iface} {io : Nat → Io} {e : Event} (h : Coupled s)
    (ht : s.handle io e = some (.ok t)) (hc : s.userdata.carrier = false)
    (he : ∀ m, e ≠ .newLink m) (hd : e ≠ .delLink) :
    t.userdata.state.isDown = true ∨ t.client = s.client := by
  have hidle := h.idle hc
  have hbare := (h.agree.bare fun hh => hidle.running hh.isRunning).2
  cases e with
  | newLink m => exact absurd rfl (he m)
  | delLink => exact absurd rfl hd
  | newAddr a ready => exact .inr (map_ok_client (Option.some.inj ht))
  | delAddr a => exact .inr (map_ok_client (Option.some.inj ht))
  | reply i r =>
    obtain ⟨q, -, ht⟩ := Option.map_eq_some_iff.mp ht
    have hcl := handleReply_client ht
    exact hcl
  | receive m => simp [Attached.handle, hidle.receive] at ht
  | resend => simp [Attached.handle, hidle.resend] at ht
  | t1 => simp [Attached.handle, hbare.t1] at ht
  | t2 => simp [Attached.handle, hbare.t2] at ht
  | expire => simp [Attached.handle, hbare.expire] at ht

theorem handle_coupled {s t : Iface} {c : Occurrence} (h : s.handle c.io c.event = some (.ok t))
    (hs : Coupled s) (hc : Undisturbed (some s) c) :
    t.userdata.state.isDown = true ∨ Coupled t := by
  by_cases he : ∀ m, c.event ≠ .newLink m
  · by_cases hd : c.event = .delLink
    · rw [hd] at h
      cases h
      rw [linkDrop_userdata, Link.dropped]
      split
      · next hl => exact .inl (by rw [hl]; rfl)
      · exact .inl rfl
    obtain hdown | ha := handle_agree h hs.agree hc he hd
    · exact .inl hdown
    by_cases hcar : s.userdata.carrier = false
    · refine (hs.handle_idle h hcar he hd).imp id fun hcl => ⟨ha, fun _ => ?_⟩
      rw [hcl]
      exact hs.idle hcar
    · refine .inr ⟨ha, fun hcar' => absurd ?_ hcar⟩
      rwa [(handle_effect h).carrier he] at hcar'
  · obtain ⟨m, hm⟩ : ∃ m, c.event = .newLink m := by
      simpa using he
    rw [hm] at h
    cases h
    exact linkUpdate_coupled hs (hc.up s rfl)

theorem coupled_of_run {os : List Occurrence} {o : Option Iface}
    (h : Run (Guarded Undisturbed LinkStep) none os o) :
    ∀ s, o = some s → s.userdata.state.isDown = true ∨ Coupled s := by
  refine Run.invariant
    (I := fun o => ∀ s, o = some s → s.userdata.state.isDown = true ∨ Coupled s)
      ?_ h (by simp)
  rintro o c o' ho ⟨hc, hstep⟩ s' hs'
  cases hstep with
  | @handle io e t h =>
  have ht : t.userdata.state.isDown = true ∨ Coupled t := by
    cases o with
    | none =>
      obtain ⟨m, r, t', -, hadd, ht, ha⟩ := handleEvent_none h
      cases ht
      exact linkAdd_coupled hadd ha.fresh
    | some s =>
      refine handle_coupled (c := ⟨io, e, _, _⟩) h ((ho s rfl).resolve_left ?_) hc
      simp [hc.up s rfl]
  unfold Attached.settle at hs'
  split at hs'
  · cases hs'
  · cases hs'
    exact ht.imp id fun h => ⟨h.agree.congr rfl rfl, h.idle⟩

/-- While the link is up, it has a lease exactly if the client has one that was acknowledged, and
it is the same. -/
theorem lease_agrees {os : List Occurrence} {s : Iface}
    (h : Run (Guarded Undisturbed LinkStep) none os (some s))
    (hup : s.userdata.state.isDown = false) :
    (s.userdata.dhcpLease ≠ none ↔ s.client.Holds) ∧
      s.userdata.dhcpLease = s.client.getLease := by
  have hc := (coupled_of_run h s rfl).resolve_left (by simp [hup])
  cases hc.agree with
  | neither hl hb => exact ⟨by simp [hl, hb.state], by rw [hl, hb.getLease]⟩
  | both lease hl hh => exact ⟨by simp [hl, hh.state], by rw [hl, hh.getLease]⟩

/-- The condition of the theorem, where no call fails. -/
def isUndisturbed (o : Option Iface) (e : Event) : Bool :=
  o.all fun s => !s.userdata.state.isDown &&
    match e with
    | .receive ⟨_, .nak⟩ => s.client.state ≠ .renewing && s.client.state ≠ .rebinding
    | _ => true

theorem undisturbed_of_isUndisturbed {o : Option Iface} {e : Event} {now : Nat}
    {sent : List Request} {out : List LogMsg} (h : isUndisturbed o e = true) :
    Undisturbed o ⟨fun _ => quietIo now, e, sent, out⟩ := by
  refine ⟨?_, fun _ _ => .inr fun _ => Int.le_refl 0, ?_⟩
  · rintro s rfl
    simpa using (Bool.and_eq_true_iff.mp h).1
  · rintro s ⟨xid, body⟩ rfl rfl ⟨rfl, -, hs⟩
    have h' := (Bool.and_eq_true_iff.mp h).2
    simp only [Bool.and_eq_true, decide_eq_true_eq] at h'
    exact hs.elim h'.1 h'.2

/-- A lease is acquired, and the client sets about renewing it. -/
def renewing : List (Nat × Event) :=
  acquisition sampleOptions ++
    [(1300000, Event.reply 0 0), (1801000000, .t1), (1801000000, .resend)]

theorem lease_agrees_renewing :
    ∃ os s, Run (Guarded Undisturbed LinkStep) none os (some s) ∧
      s.userdata.state.isDown = false ∧ s.client.state = .renewing ∧
      s.userdata.dhcpLease = s.client.getLease := by
  have hex : (execute none renewing).any (fun (_, o) => o.any fun s =>
      !s.userdata.state.isDown && s.client.state = .renewing) := by decide +kernel
  have hmeets : meets isUndisturbed none renewing = true := by decide +kernel
  obtain ⟨⟨os, o⟩, ho, hs⟩ := (Option.any_eq_true _ _).mp hex
  obtain ⟨s, rfl, hp⟩ := (Option.any_eq_true _ _).mp hs
  simp only [Bool.and_eq_true, Bool.not_eq_true', decide_eq_true_eq] at hp
  have hrun := execute_run_meets ho hmeets fun _ _ _ _ _ => undisturbed_of_isUndisturbed
  exact ⟨os, s, hrun, hp.1, hp.2, (lease_agrees hrun hp.1).2⟩

/-- The server refuses a renewal: the client starts over, and the link keeps the lease. -/
theorem refusal_leaves_lease :
    ∃ os s, Run LinkStep none os (some s) ∧ s.userdata.state.isDown = false ∧
      s.userdata.dhcpLease ≠ none ∧ ¬s.client.Holds ∧ s.client.getLease = none := by
  have hex : (execute none (renewing ++ [(1801100000, .receive ⟨7, .nak⟩)])).any (fun (_, o) =>
      o.any fun s => !s.userdata.state.isDown && s.userdata.dhcpLease.isSome &&
        s.client.state = .init && s.client.getLease = none) := by decide +kernel
  obtain ⟨os, o, hrun, ho⟩ := execute_reaches hex
  obtain ⟨s, rfl, hp⟩ := (Option.any_eq_true _ _).mp ho
  simp only [Bool.and_eq_true, Bool.not_eq_true', decide_eq_true_eq] at hp
  obtain ⟨⟨⟨hup, hl⟩, hst⟩, hget⟩ := hp
  exact ⟨os, s, hrun, hup, Option.isSome_iff_ne_none.mp hl,
    by simp [DhcpClient.Holds, hst], hget⟩

end CarFi.Roamingd

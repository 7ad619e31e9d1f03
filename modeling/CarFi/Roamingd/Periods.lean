import CarFi.Roamingd.Agreement
import CarFi.Roamingd.Reading

/-!
# Carrier periods

What happens to an interface from the gain of its carrier to the loss: DHCP is started, leases
are acquired, and the period is finished. Of all that the daemon prints, the parser hears just
this.
-/
namespace CarFi.Roamingd

open Library Library.Printf Attached Analyzer

/-! ## What an event means for the period -/

/-- The link gets a carrier. -/
def gainsCarrier : Option Iface → Event → Bool
  | none, .newLink m => m.carrier
  | some s, .newLink m => !s.userdata.carrier && m.carrier
  | _, _ => false

def losesCarrier : Option Iface → Event → Bool
  | some s, .newLink m => s.userdata.carrier && !m.carrier
  | _, _ => false

/-- `link_acquire_conf` is called. -/
def startsDhcp (io : Nat → Io) : Option Iface → Event → Bool
  | none, .newLink m => m.managed && m.carrier && decide (0 ≤ (io 0).result .configure)
  | some s, .newLink m =>
    let state := s.userdata.readded.state
    !s.userdata.carrier && m.carrier &&
      !(state = .pending || state = .unmanaged || state = .failed)
  | _, _ => false

/-- The lease that the client has after an acknowledgement, unless it fails. -/
def leaseBound (io : Io) (lease : Lease) (c : DhcpClient) : Option Lease :=
  match setLeaseTimeouts io lease (takeLease lease c) with
  | .ok (r, c) =>
    if r < 0 ∨ io.result .bindUdp < 0 ∨ io.result .addIo < 0 then none else c.lease
  | .error _ => none

/-- The lease that `dhcp_lease_acquired` finds, if an acknowledgement leads there. -/
def leaseTaken (io : Io) (s : Iface) (lease : Lease) : Option Lease :=
  if ¬s.userdata.state.isDown ∧ (notifyEvent s.client lease = some .ipAcquire ∨
      notifyEvent s.client lease = some .ipChange) then leaseBound io lease s.client
  else none

def messageTaken (io : Io) (s : Iface) (m : Message) : Option Lease :=
  if (s.client.state = .bound ∧ s.client.fd ≠ some .raw) ∨ m.xid = s.client.xid then
    match s.client.state, m.body with
    | .rebooting, .ack o | .requesting, .ack o | .renewing, .ack o | .rebinding, .ack o =>
      o.acknowledged.bind (leaseTaken io s)
    | _, _ => none
  else none

/-- The lease that the link acquires. -/
def acquires (io : Io) : Option Iface → Event → Option Lease
  | some s, .receive m => messageTaken io s m
  | _, _ => none

/-- What the parser hears of a lease that is acquired. -/
def leaseEvents (lease : Lease) : List RMEvent := (Link.leaseLines lease).filterMap LogMsg.event

/-- What the parser hears of an event. -/
def heardOf (o : Option Iface) (c : Occurrence) : List RMEvent :=
  if startsDhcp c.io o c.event then [.dhcpStart]
  else
    match acquires (c.io 0) o c.event with
    | some lease => leaseEvents lease
    | none => if losesCarrier o c.event then [.ipLost] else []

/-! ## What the parser hears of the functions of the link -/

namespace Link

def heard (l : Link) : List RMEvent := l.out.filterMap LogMsg.event

@[simp] theorem heard_log (m : LogMsg) (l : Link) :
    (l.log m).heard = l.heard ++ m.event.toList := by
  cases h : m.event <;> simp [heard, log, List.filterMap_append, h]

theorem Noted.heard {l l' : Link} (h : l.Noted l') : l'.heard = l.heard := by
  obtain ⟨fs, rfl⟩ := h
  have hnone : (fs.map fun p => LogMsg.failure p.1 p.2).filterMap LogMsg.event = [] := by
    simp [List.filterMap_map, Function.comp_def, LogMsg.event]
  simp only [Link.heard, List.filterMap_append, hnone, List.append_nil]

theorem heard_fail (l : Link) : l.fail.heard = l.heard := by
  unfold fail
  split
  · rfl
  · exact (heard_log .failed l).trans (List.append_nil _)

theorem heard_failWith (f : Failure) (r : Int) (l : Link) : (l.failWith f r).heard = l.heard := by
  rw [failWith, heard_fail, heard_log]
  exact List.append_nil _

theorem heard_lost (io : Io) (l : Link) : (l.lost io).heard = l.heard := by
  unfold lost
  split
  · rfl
  · rw [leaseLost_eq]
    exact (heard_log .leaseLost l).trans (List.append_nil _)

theorem heard_stopped (io : Io) (l : Link) : (l.stopped io).heard = l.heard := by
  unfold stopped
  split
  · rfl
  · exact heard_lost io l

theorem heard_updateAddress (io : Io) (lease : Lease) (l : Link) :
    (l.updateAddress io lease).heard = l.heard := by
  unfold updateAddress
  split
  · exact heard_failWith ..
  · obtain ⟨own, foreign, hf⟩ := addressAdd_frame lease.addr (l.request (.newAddr lease.addr))
    rw [hf]
    rfl

theorem heard_checkReady {l l' : Link} (h : l.checkReady = .ok l') : l'.heard = l.heard := by
  obtain rfl | ⟨-, rfl⟩ := checkReady_frame h
  · rfl
  · exact (heard_log .configured l).trans (List.append_nil _)

theorem heard_replied {io : Io} {r : Int} {q : Request} {l l' : Link}
    (h : l.replied io r q = .ok l') : l'.heard = l.heard := by
  have hfail (f : Failure) (l : Link) : (l.failOn f r).heard = l.heard := by
    unfold failOn
    split
    · exact heard_failWith ..
    · rfl
  cases q with
  | newAddr a =>
    obtain ⟨lease, qs, m, -, -, hn, rfl | rfl, -⟩ := setDhcpRoutes_ok h
    · exact hn.heard.trans (hfail _ l)
    · exact (heard_fail m).trans (hn.heard.trans (hfail _ l))
  | newRoute route =>
    simp only [Link.replied] at h
    split at h
    · cases h
    split at h
    · exact (heard_checkReady h).trans (hfail .setRoute _)
    · cases h
      exact hfail .setRoute _
  | delRoute route => cases h; exact (note_noted ..).heard
  | delAddr a => cases h; exact (note_noted ..).heard
  | setLink => cases h; exact (note_noted ..).heard

/-- Only a lease that is acquired is heard of. -/
theorem heard_notified (io : Io) (e : ClientEvent) (x : Option Lease) (l : Link) :
    (l.notified io e x).heard = l.heard ++
      if ¬l.state.isDown ∧ (e = .ipAcquire ∨ e = .ipChange) then x.elim [] leaseEvents
      else [] := by
  have hacquired (l : Link) : (l.acquired io x).heard = l.heard ++ x.elim [] leaseEvents := by
    cases x with
    | none => exact (heard_failWith ..).trans (List.append_nil _).symm
    | some lease =>
      refine (heard_updateAddress ..).trans ?_
      simp [Link.heard, leaseEvents, List.filterMap_append]
  unfold Link.notified
  by_cases hd : l.state.isDown
  · simp [hd]
  rw [if_neg hd]
  cases e with
  | stop => simpa using heard_lost io l
  | expired => simpa using heard_lost io l
  | ipAcquire => simpa [hd] using hacquired l
  | ipChange => simpa [hd, heard_lost] using hacquired (l.lost io)
  | renew =>
    cases x with
    | none => simpa [renewed] using heard_failWith .noLeaseRenewed (-eaddrnotavail) l
    | some lease =>
      refine (heard_updateAddress io lease
        { l with dhcp4Configured := false, dhcpLease := some lease }).trans ?_
      simp [Link.heard]
  | error r => simp [LogMsg.event]

end Link

namespace Attached

/-! ## Acknowledgements -/

theorem dhcp4Handler_error_heard {io : Io} {x : List RMEvent} (r : Int) (s : Iface)
    (h : s.userdata.heard = x) : (dhcp4Handler io (.error r) s).userdata.heard = x :=
  (@dhcp4Handler_error_noted io s.userdata r s (.refl _)).heard.trans h

@[simp] theorem errorStop_heard (io : Io) (r : Int) (s : Iface) :
    (clientStop (dhcp4Handler io) (.error r) s).userdata.heard = s.userdata.heard :=
  dhcp4Handler_error_heard r s rfl

theorem clientNotify_heard (io : Io) (e : Option ClientEvent) (s : Iface) :
    (clientNotify (dhcp4Handler io) e s).userdata.heard = s.userdata.heard ++
      if ¬s.userdata.state.isDown ∧ (e = some .ipAcquire ∨ e = some .ipChange) then
        s.client.getLease.elim [] leaseEvents else [] := by
  cases e with
  | none => simp [clientNotify]
  | some e => simp [clientNotify, dhcp4Handler_userdata, Link.heard_notified]

theorem acknowledge_heard {io : Io} {lease : Lease} {s t : Iface}
    (h : acknowledge (dhcp4Handler io) io lease s = .ok t) :
    t.userdata.heard = s.userdata.heard ++ (leaseTaken io s lease).elim [] leaseEvents := by
  have htaken (x : Option Lease) (hx : leaseBound io lease s.client = x) :
      (leaseTaken io s lease).elim [] leaseEvents =
        if ¬s.userdata.state.isDown ∧ (notifyEvent s.client lease = some .ipAcquire ∨
          notifyEvent s.client lease = some .ipChange) then x.elim [] leaseEvents else [] := by
    rw [leaseTaken, hx]
    split <;> rfl
  unfold acknowledge at h
  dsimp only at h
  split at h
  · cases h
  next r c hr =>
  have hr' : setLeaseTimeouts io lease (takeLease lease s.client) = .ok (r, c) := hr
  split at h
  · next hneg =>
    cases h
    rw [htaken none (by simp [leaseBound, hr', hneg])]
    simp
  split at h
  · next hneg =>
    cases h
    rw [htaken none (by simp [leaseBound, hr', hneg])]
    simp
  next hr0 hbind =>
  cases h
  rw [clientNotify_heard]
  unfold initializeIoEvents
  split
  · next hneg =>
    rw [htaken none (by simp [leaseBound, hr', hneg])]
    have hget : (clientStop (dhcp4Handler io) (.error (io.result .addIo))
        (({ s with client := c } : Iface).setClient fun c =>
          { c with fd := some (.udp lease.address) })).client.getLease = none := getLease_reset _
    rw [hget]
    simp
  · next hadd =>
    have hc : c.state = .bound := by
      obtain ⟨_, _, _, _, _, rfl⟩ := setLeaseTimeouts_timed hr' rfl
      rfl
    rw [htaken c.lease (by simp [leaseBound, hr', hr0, hbind, hadd])]
    simp [DhcpClient.getLease, hc]

theorem receive_heard {io : Io} {m : Message} {s t : Iface}
    (h : clientReceiveMessage (dhcp4Handler io) io m s = .ok t) :
    t.userdata.heard = s.userdata.heard ++ (messageTaken io s m).elim [] leaseEvents := by
  unfold clientReceiveMessage at h
  unfold messageTaken
  split at h
  swap
  · next hx =>
    cases h
    simp [hx]
  next hx =>
  rw [if_pos hx]
  unfold clientHandleMessage at h
  split at h
  · next hs hm =>
    simp only [hs, hm]
    split at h
    · cases h
      simp
    · dsimp only at h
      split at h <;> cases h <;> simp
  iterate 4
    · next hs hm =>
      simp only [hs, hm]
      split at h
      · next ho =>
        cases h
        simp [ho]
      · next ho =>
        rw [ho]
        exact acknowledge_heard h
  iterate 4
    · next hs hm =>
      simp only [hs, hm]
      cases h
      simpa using @refuse_keeps Link _ io (fun l => l.heard = s.userdata.heard)
        dhcp4Handler_error_heard s rfl
  · next hs hm =>
    simp only [hs, hm]
    cases h
    simpa using @clientTimeoutT1_keeps Link _ io (fun l => l.heard = s.userdata.heard)
      dhcp4Handler_error_heard s rfl
  · next hs =>
    simp only [hs]
    cases h
    simp
  · cases h
    split
    all_goals simp_all

/-! ## New links -/

theorem linkNew_heard (m : LinkMessage) : (linkNew m).userdata.heard = [] := by
  have hadd (as : List Addr) (l : Link) :
      (as.foldl (fun l a => l.addressAdd a) l).heard = l.heard := by
    induction as generalizing l with
    | nil => rfl
    | cons a as ih =>
      obtain ⟨own, foreign, hf⟩ := Link.addressAdd_frame a l
      rw [List.foldl_cons, ih, hf]
      rfl
  rw [linkNew, hadd]
  rfl

theorem acquireConf_heard (io : Io) (s : Iface) :
    (acquireConf io s).2.userdata.heard = s.userdata.heard ++ [RMEvent.dhcpStart] :=
  (acquireConf_noted io s).heard.trans (Link.heard_log ..)

theorem enterSetRoutes_heard {s t : Iface} (h : enterSetRoutes s = .ok t) :
    t.userdata.heard = s.userdata.heard := by
  have hl := Link.heard_checkReady (map_ok h)
  exact hl

theorem enterJoinNetdev_heard {io : Io} {up : Bool} {p : Int × Iface} {s : Iface}
    (h : enterJoinNetdev io up s = .ok p) : p.2.userdata.heard = s.userdata.heard := by
  have hmap {s t : Iface} (h : ((enterSetRoutes t).map fun s => ((0 : Int), s)) = .ok p)
      (ht : t.userdata.heard = s.userdata.heard) : p.2.userdata.heard = s.userdata.heard := by
    cases hr : enterSetRoutes t with
    | error a =>
      rw [hr] at h
      cases h
    | ok u =>
      rw [hr] at h
      cases h
      exact (enterSetRoutes_heard hr).trans ht
  unfold enterJoinNetdev at h
  dsimp only at h
  split at h
  · exact hmap h rfl
  split at h
  · cases h
    rw [failWith_userdata, Link.heard_failWith, logLink_userdata, Link.heard_log]
    simp [LogMsg.event, Link.heard]
  · refine hmap h ?_
    refine (Link.heard_log .bringingUp _).trans ?_
    simp [LogMsg.event, Link.heard]

theorem linkAdd_heard {io : Nat → Io} {m : LinkMessage} {r : Int} {t : Iface}
    (h : linkAdd (io 0) m = .ok (r, t)) :
    t.userdata.heard = if startsDhcp io none (.newLink m) then [.dhcpStart] else [] := by
  have hnew : ((linkNew m).logLink .upToDate).userdata.heard = [] := by
    rw [logLink_userdata, Link.heard_log, linkNew_heard]
    rfl
  have hcarrier : ((linkNew m).logLink .upToDate).userdata.carrier = m.carrier :=
    (linkNew_fresh m).1.carrier
  unfold linkAdd at h
  dsimp only at h
  split at h
  swap
  · next hm =>
    cases h
    rw [if_neg (by simp [startsDhcp, hm])]
    refine (Link.heard_log .unmanaged _).trans ?_
    rw [hnew]
    rfl
  next hm =>
  -- the failure of the configuration adds nothing
  obtain ⟨r', s, hconf, ht⟩ : ∃ r' s, configure (io 0) m.up ((linkNew m).logLink .upToDate) =
      .ok (r', s) ∧ t.userdata.heard = s.userdata.heard := by
    split at h
    · cases h
    next r' s hconf =>
    refine ⟨r', s, hconf, ?_⟩
    split at h
    · cases h
      rw [enterFailed_userdata, Link.heard_fail]
    · cases h
      rfl
  rw [ht]
  unfold configure at hconf
  rw [hcarrier] at hconf
  split at hconf
  · next hneg =>
    cases hconf
    rw [hnew, if_neg (by simp [startsDhcp, hneg])]
  next hpos =>
  split at hconf
  · next hc =>
    rw [if_pos (by simpa [startsDhcp, hm, hc] using Int.not_lt.mp hpos)]
    have hacq := acquireConf_heard (io 0) ((linkNew m).logLink .upToDate)
    rw [hnew] at hacq
    dsimp only at hconf
    split at hconf
    · cases hconf
      exact hacq
    · exact (enterJoinNetdev_heard hconf).trans hacq
  · next hc =>
    rw [if_neg (by simp [startsDhcp, hc])]
    exact (enterJoinNetdev_heard hconf).trans hnew

end Attached

/-! ## Events -/

theorem Remade.heard {io : Nat → Io} {m : LinkMessage} {s : Iface} {l : Link}
    (h : Remade io m s l) : l.heard = s.userdata.heard := by
  have hr : s.userdata.readded.heard = s.userdata.heard := by
    unfold Link.readded
    split
    · exact (Link.heard_log .linkReadded _).trans (List.append_nil _)
    · rfl
  cases h with
  | same => exact hr
  | idle _ => exact hr
  | restarted _ _ hn => exact hn.heard.trans ((Link.heard_stopped ..).trans hr)

theorem Gained.heard {io : Io} {l l' : Link} (h : Gained io l l') :
    l'.heard = l.heard ++
      if l.state = .pending ∨ l.state = .unmanaged ∨ l.state = .failed then []
      else [RMEvent.dhcpStart] := by
  cases h with
  | ignored h => simp [h]
  | started h hn => rw [hn.heard, Link.heard_log, if_neg h]; rfl
  | failed h hn _ => rw [Link.heard_fail, hn.heard, Link.heard_log, if_neg h]; rfl

/-- An announcement is heard of if it starts DHCP or takes the carrier. -/
theorem Effect.heard_newLink {io : Nat → Io} {s : Iface} {m : LinkMessage} {l : Link}
    (h : Effect io s (.newLink m) l) : l.heard = s.userdata.heard ++
      if startsDhcp io (some s) (.newLink m) then [RMEvent.dhcpStart]
      else if losesCarrier (some s) (.newLink m) then [RMEvent.ipLost] else [] := by
  cases h with
  | carrierSame hl hc => simpa [startsDhcp, losesCarrier, hc, Link.heard] using hl.heard
  | @carrierGained _ l _ hl hs hm hg =>
    have hlog : (Link.log .gainedCarrier { l with carrier := m.carrier }).heard =
        s.userdata.heard := by
      refine (Link.heard_log ..).trans ?_
      simpa [LogMsg.event, Link.heard] using hl.heard
    have hst : (Link.log .gainedCarrier { l with carrier := m.carrier }).state =
        s.userdata.readded.state := hl.state_eq
    rw [hg.heard, hlog, hst]
    cases hr : s.userdata.readded.state <;> simp [startsDhcp, losesCarrier, hs, hm, hr]
  | @carrierLost _ l hl hs hm =>
    rw [Link.heard_stopped, Link.heard_log]
    simpa [startsDhcp, losesCarrier, hs, hm, LogMsg.event, Link.heard] using hl.heard

/-- The events of which nothing is heard. -/
theorem Effect.heard_other {io : Nat → Io} {s : Iface} {e : Event} {l : Link}
    (h : Effect io s e l) (hnew : ∀ m, e ≠ .newLink m) (hrec : ∀ m, e ≠ .receive m) :
    l.heard = s.userdata.heard := by
  cases h with
  | carrierSame _ _ => exact absurd rfl (hnew _)
  | carrierGained _ _ _ _ => exact absurd rfl (hnew _)
  | carrierLost _ _ _ => exact absurd rfl (hnew _)
  | delLink =>
    unfold Link.dropped
    split
    · rfl
    · exact (Link.heard_log .linkRemoved _).trans (List.append_nil _)
  | newAddr h =>
    obtain ⟨_, _, rfl | ⟨-, rfl⟩⟩ := Link.newAddr_frame h
    · rfl
    · exact (Link.heard_log .configured _).trans (List.append_nil _)
  | delAddr h =>
    obtain ⟨_, _, rfl | ⟨-, rfl⟩⟩ := Link.delAddr_frame h
    · rfl
    · exact (Link.heard_log .configured _).trans (List.append_nil _)
  | reply _ h =>
    have hl := Link.heard_replied h
    exact hl
  | ignored _ => exact absurd rfl (hrec _)
  | acknowledged _ _ _ _ => exact absurd rfl (hrec _)
  | resend hn => exact hn.heard
  | t1 hn => exact hn.heard
  | t2 hn => exact hn.heard
  | expire hn => exact hn.heard.trans (Link.heard_stopped ..)

/-- What is heard of an event on a link that exists. -/
theorem handle_heard {s t : Iface} {c : Occurrence} (h : s.handle c.io c.event = some (.ok t)) :
    t.userdata.heard = s.userdata.heard ++ heardOf (some s) c := by
  obtain ⟨io, e, sent, out⟩ := c
  have heff := handle_effect h
  cases e with
  | newLink m => simpa [heardOf, acquires] using heff.heard_newLink
  | receive m =>
    simp only [Attached.handle] at h
    split at h
    · rw [receive_heard (Option.some.inj h)]
      simp only [heardOf, acquires, startsDhcp, losesCarrier, Bool.false_eq_true, if_false]
      cases messageTaken (io 0) s m <;> rfl
    · cases h
  | _ =>
    simpa [heardOf, acquires, startsDhcp, losesCarrier] using heff.heard_other (by simp) (by simp)

/-- What the parser hears of a step. -/
theorem LinkStep.heard {o o' : Option Iface} {c : Occurrence} (h : LinkStep o c o')
    (hout : ∀ s, o = some s → s.userdata.out = []) :
    c.out.filterMap LogMsg.event = heardOf o c := by
  cases h with
  | @handle io e t h =>
  cases o with
  | none =>
    obtain ⟨m, r, t', rfl, hadd, ht, -⟩ := handleEvent_none h
    cases ht
    refine (linkAdd_heard hadd).trans ?_
    simp [heardOf, acquires, losesCarrier]
  | some s =>
    have hs := handle_heard (c := ⟨io, e, t.userdata.sent, t.userdata.out⟩) h
    have hempty : s.userdata.heard = [] := by simp [Link.heard, hout s rfl]
    rw [hempty] at hs
    exact hs

end CarFi.Roamingd

import CarFi.Roamingd.LinkEvents

/-!
# The assertions of the daemon

Two assertions guard the way from a lease to a configured link: `link_set_dhcp_routes` wants a
lease when the reply to an address request arrives, and `link_enter_configured` wants the link
to be setting its routes. Both can fail, and for both there is a condition on the steps of a
run under which they do not.
-/
namespace CarFi.Roamingd

open Library Attached

/-! ## Where an assertion can fail -/

/-- All is configured, but the link is in a state in which that is not expected. -/
structure Link.Stranded (l : Link) : Prop where
  static : l.staticConfigured = true
  dhcp4 : l.dhcp4Configured = true
  state : l.state ≠ .configured ∧ l.state ≠ .settingRoutes

/-- What the failure of an assertion says about the event and the link before it. -/
inductive Aborts (s : Iface) : Event → Abort → Prop
  | leaseTimeouts {m : Message} : Aborts s (.receive m) .leaseTimeouts
  | setDhcpRoutes {i : Nat} {r : Int} {a : Addr}
      (hq : s.userdata.pending[i]? = some (.newAddr a)) (hl : s.userdata.dhcpLease = none) :
      Aborts s (.reply i r) .setDhcpRoutes
  | routeHandler {i : Nat} {r : Int} {route : Route}
      (hq : s.userdata.pending[i]? = some (.newRoute route)) (hm : s.userdata.dhcp4Messages = 0) :
      Aborts s (.reply i r) .routeHandler
  | lastRoute {i : Nat} {r : Int} {route : Route}
      (hq : s.userdata.pending[i]? = some (.newRoute route)) (hm : s.userdata.dhcp4Messages = 1)
      (hc : s.userdata.staticConfigured = true)
      (hs : isError r eexist = true ∨
        s.userdata.state ≠ .configured ∧ s.userdata.state ≠ .settingRoutes) :
      Aborts s (.reply i r) .enterConfigured
  | newAddr {a : Addr} {ready : Bool} (h : s.userdata.Stranded) :
      Aborts s (.newAddr a ready) .enterConfigured
  | delAddr {a : Addr} (h : s.userdata.Stranded) : Aborts s (.delAddr a) .enterConfigured

namespace Link

theorem checkReady_error {l : Link} {a : Abort} (h : l.checkReady = .error a) :
    a = .enterConfigured ∧ l.Stranded := by
  unfold checkReady at h
  split at h
  · next hc =>
    split at h
    · cases h
    · next hs =>
      cases h
      exact ⟨rfl, hc.2.1, hc.2.2.1, hc.2.2.2.2, hs⟩
  · cases h

theorem newAddr_error {a : Addr} {ready : Bool} {l : Link} {b : Abort}
    (h : l.newAddr a ready = .error b) :
    b = .enterConfigured ∧ l.Stranded := by
  unfold newAddr at h
  split at h
  · obtain ⟨own, foreign, hs⟩ := setReady_frame a ready l
    rw [hs] at h
    split at h
    · obtain ⟨rfl, hl⟩ := checkReady_error h
      exact ⟨rfl, { hl with }⟩
    · cases h
  · dsimp only at h
    split at h
    · obtain ⟨rfl, hl⟩ := checkReady_error h
      exact ⟨rfl, { hl with }⟩
    · cases h

theorem delAddr_error {a : Addr} {l : Link} {b : Abort} (h : l.delAddr a = .error b) :
    b = .enterConfigured ∧ l.Stranded := by
  unfold delAddr at h
  split at h
  · cases h
  dsimp only at h
  split at h
  · cases h
  · obtain ⟨rfl, hl⟩ := checkReady_error h
    refine ⟨rfl, ?_⟩
    split at hl <;> exact { hl with }

theorem setDhcpRoutes_error {io : Io} {l : Link} {b : Abort} (h : l.setDhcpRoutes io = .error b) :
    b = .setDhcpRoutes ∧ l.dhcpLease = none := by
  unfold setDhcpRoutes at h
  split at h
  · next hl =>
    cases h
    exact ⟨rfl, hl⟩
  · dsimp only at h
    repeat' split at h
    all_goals cases h

end Link

theorem replied_error {io : Io} {s : Iface} {i : Nat} {r : Int} {q : Request} {b : Abort}
    (hq : s.userdata.pending[i]? = some q)
    (h : Link.replied io r { s.userdata with pending := s.userdata.pending.eraseIdx i } q =
      .error b) : Aborts s (.reply i r) b := by
  cases q with
  | newAddr a =>
    obtain ⟨rfl, hl⟩ := Link.setDhcpRoutes_error h
    obtain ⟨st, o, hf, -⟩ := Link.failOn_frame .setAddress r
      { s.userdata with pending := s.userdata.pending.eraseIdx i }
    rw [hf] at hl
    exact .setDhcpRoutes hq hl
  | newRoute route =>
    simp only [Link.replied] at h
    split at h
    · next hm =>
      cases h
      exact .routeHandler hq hm
    next n hm =>
    split at h
    swap
    · cases h
    next hn =>
    subst hn
    obtain ⟨st, o, hf, hst⟩ := Link.failOn_frame .setRoute r
      { s.userdata with pending := s.userdata.pending.eraseIdx i, dhcp4Messages := 0 }
    rw [hf] at h
    obtain ⟨rfl, hc, -, hs⟩ := Link.checkReady_error h
    refine .lastRoute hq hm hc ?_
    obtain rfl | ⟨he, -⟩ := hst
    · exact .inr hs
    · exact .inl he
  | _ => cases h

theorem receive_error {υ : Type} {cb : ClientEvent → Attached υ → Attached υ} {io : Io}
    {m : Message} {s : Attached υ} {b : Abort} (h : clientReceiveMessage cb io m s = .error b) :
    b = .leaseTimeouts := by
  have htime {l : Lease} {c : DhcpClient} {b : Abort} (h : setLeaseTimeouts io l c = .error b) :
      b = .leaseTimeouts := by
    unfold setLeaseTimeouts at h
    dsimp only at h
    repeat' split at h
    all_goals cases h
    rfl
  have hack {l : Lease} (h : acknowledge cb io l s = .error b) : b = .leaseTimeouts := by
    unfold acknowledge at h
    dsimp only at h
    split at h
    · next hr =>
      cases h
      exact htime hr
    · repeat' split at h
      all_goals cases h
  unfold clientReceiveMessage at h
  split at h
  swap
  · cases h
  unfold clientHandleMessage at h
  split at h
  · split at h
    · cases h
    · dsimp only at h
      split at h <;> cases h
  iterate 4
    · split at h
      · cases h
      · exact hack h
  all_goals cases h

theorem map_error {x : Except Abort Link} {s : Iface} {b : Abort}
    (h : (x.map fun l => ({ s with userdata := l } : Iface)) = .error b) : x = .error b := by
  cases x with
  | error a => cases h; rfl
  | ok l => cases h

/-- The assertions fail only in the listed cases. -/
theorem handle_error {io : Nat → Io} {s : Iface} {e : Event} {b : Abort}
    (h : s.handle io e = some (.error b)) : Aborts s e b := by
  cases e with
  | newLink m => cases h
  | delLink => cases h
  | newAddr a ready =>
    obtain ⟨rfl, hl⟩ := Link.newAddr_error (map_error (Option.some.inj h))
    exact .newAddr hl
  | delAddr a =>
    obtain ⟨rfl, hl⟩ := Link.delAddr_error (map_error (Option.some.inj h))
    exact .delAddr hl
  | reply i r =>
    obtain ⟨q, hq, h⟩ := Option.map_eq_some_iff.mp h
    exact replied_error hq
      ((handleReply_userdata (io 0) _ r q).symm.trans (congrArg (Except.map userdata) h))
  | receive m =>
    simp only [Attached.handle] at h
    split at h
    · rw [receive_error (Option.some.inj h)]
      exact .leaseTimeouts
    · cases h
  | _ =>
    obtain ⟨_, _, h⟩ := Option.map_eq_some_iff.mp h
    cases h

theorem handleEvent_error {io : Nat → Io} {o : Option Iface} {e : Event} {b : Abort}
    (h : handleEvent io o e = some (.error b)) : ∃ s, o = some s ∧ Aborts s e b := by
  cases o with
  | none =>
    obtain ⟨_, _, _, _, _, hx, _⟩ := handleEvent_none h
    cases hx
  | some s => exact ⟨s, rfl, handle_error h⟩

/-! ## The lease behind an address request -/

/-- The reply to a request for an address is outstanding. -/
def Link.AwaitsAddress (l : Link) : Prop := ∃ a, .newAddr a ∈ l.pending

/-- The event makes a link that is not failed give up its lease without getting another. -/
inductive GivesUpLease (io : Nat → Io) (s : Iface) : Event → Prop
  | expire (h : s.userdata.state.isDown = false) : GivesUpLease io s .expire
  | carrierLost {m : LinkMessage} (h : s.userdata.state ≠ .failed)
      (hs : s.userdata.carrier = true) (hm : m.carrier = false) : GivesUpLease io s (.newLink m)
  | macChanged {m : LinkMessage} (h : s.userdata.state ≠ .failed) (hm : MacChanges m s)
      (hc : s.client.IsRunning) : GivesUpLease io s (.newLink m)
  | changeFailed {m : Message} {lease : Lease} (ha : s.client.accepted m = some lease)
      (he : notifyEvent s.client lease = some .ipChange) (hio : (io 0).result .addIo < 0) :
      GivesUpLease io s (.receive m)

/-- No lease is given up while the reply to an address request is outstanding. -/
def KeepsRequestedLease (o : Option Iface) (c : Occurrence) : Prop :=
  ∀ s, o = some s → s.userdata.AwaitsAddress → s.userdata.dhcpLease ≠ none →
    ¬GivesUpLease c.io s c.event

/-- A reply that will set routes finds a lease. -/
def Link.Backed (l : Link) : Prop := l.AwaitsAddress → l.dhcpLease ≠ none

namespace Link

theorem Backed.noted {l l' : Link} (h : l.Backed) (hn : l.Noted l') : l'.Backed := by
  obtain ⟨fs, rfl⟩ := hn
  exact h

theorem Backed.fail {l : Link} (h : l.Backed) : l.fail.Backed := by
  obtain ⟨st, o, hf, -⟩ := l.fail_frame
  rw [hf]
  exact h

theorem lost_awaitsAddress (io : Io) (l : Link) : (l.lost io).AwaitsAddress ↔
    l.AwaitsAddress := by
  unfold lost
  cases l.dhcpLease with
  | none => rfl
  | some lease =>
    simp only [leaseLost_eq, AwaitsAddress, requestAll, log, List.mem_append]
    refine exists_congr fun a => or_iff_left ?_
    intro h
    obtain ⟨_, h⟩ | ⟨_, h⟩ := removed_isDel h <;> cases h

/-- A stop is harmless to a link that awaits no address or does not listen. -/
theorem Backed.stopped {io : Io} {l : Link} (h : l.Backed)
    (hl : l.state.isDown = true ∨ ¬l.AwaitsAddress) : (l.stopped io).Backed := by
  unfold Link.stopped
  split
  · exact h
  · next hd =>
    intro ha
    exact absurd ((lost_awaitsAddress io l).mp ha) (hl.resolve_left hd)

theorem Backed.setDhcpRoutes {io : Io} {l l' : Link} (h : l.setDhcpRoutes io = .ok l') :
    l'.Backed := by
  obtain ⟨lease, qs, m, hlease, -, hn, hm, -⟩ := setDhcpRoutes_ok h
  have hb : m.Backed := by
    refine Backed.noted (l := l.requestRoutes qs) (fun _ => ?_) hn
    simp [requestRoutes, requestAll, hlease]
  obtain rfl | rfl := hm
  · exact hb
  · exact hb.fail

theorem Backed.updateAddress {io : Io} {lease : Lease} {l : Link} (hl : l.dhcpLease ≠ none) :
    (l.updateAddress io lease).Backed := by
  unfold Link.updateAddress
  split
  · obtain ⟨st, o, hf, -⟩ := failWith_frame .updateAddress (io.result .addressConfigure) l
    rw [hf]
    exact fun _ => hl
  · obtain ⟨own, foreign, hf⟩ := addressAdd_frame lease.addr (l.request (.newAddr lease.addr))
    rw [hf]
    exact fun _ => hl

theorem Backed.replied {io : Io} {r : Int} {q : Request} {l l' : Link} (h : l.Backed)
    (hl : l.replied io r q = .ok l') : l'.Backed := by
  cases q with
  | newAddr a => exact .setDhcpRoutes hl
  | newRoute route =>
    simp only [Link.replied] at hl
    split at hl
    · cases hl
    next n _ =>
    obtain ⟨st, o, hf, -⟩ := failOn_frame .setRoute r { l with dhcp4Messages := n }
    rw [hf] at hl
    split at hl
    · obtain rfl | ⟨-, rfl⟩ := checkReady_frame hl <;> exact h
    · cases hl
      exact h
  | delRoute route => cases hl; exact h.noted (note_noted ..)
  | delAddr a => cases hl; exact h.noted (note_noted ..)
  | setLink => cases hl; exact h.noted (note_noted ..)

/-- A lease that is taken backs the request for its address. -/
theorem Backed.acquired {io : Io} {x : Option Lease} {l : Link}
    (h : l.Backed ∨ x ≠ none) : (l.acquired io x).Backed := by
  cases x with
  | none => exact Backed.fail (l := l.log _) (h.resolve_right fun h => h rfl)
  | some lease => exact .updateAddress (by simp)

theorem Backed.renewed {io : Io} {x : Option Lease} {l : Link} (h : l.Backed) :
    (l.renewed io x).Backed := by
  cases x with
  | none => exact Backed.fail (l := l.log _) h
  | some lease => exact .updateAddress (by simp)

end Link

theorem readded_awaitsAddress (l : Link) : l.readded.AwaitsAddress ↔ l.AwaitsAddress := by
  unfold Link.readded
  split <;> rfl

theorem Link.Backed.readded {l : Link} (h : l.Backed) : l.readded.Backed := by
  unfold Link.readded
  split <;> exact h

theorem notifyEvent_ne_stop (c : DhcpClient) (l : Lease) : notifyEvent c l ≠ some .stop := by
  unfold notifyEvent ackEvent
  repeat' split
  all_goals simp_all

theorem notifyEvent_ne_expired (c : DhcpClient) (l : Lease) :
    notifyEvent c l ≠ some .expired := by
  unfold notifyEvent ackEvent
  repeat' split
  all_goals simp_all

/-- A failed link does not listen, and any other awaits no address when it gives up its lease. -/
theorem KeepsRequestedLease.not_awaits {s : Iface} {c : Occurrence}
    (hg : KeepsRequestedLease (some s) c) (h : s.userdata.Backed)
    (hgive : s.userdata.state ≠ .failed → GivesUpLease c.io s c.event) :
    s.userdata.state = .failed ∨ ¬s.userdata.AwaitsAddress := by
  by_cases hf : s.userdata.state = .failed
  · exact .inl hf
  · exact .inr fun ha => hg s rfl ha (h ha) (hgive hf)

theorem readded_isDown {l : Link} (h : l.state = .failed) : l.readded.state.isDown = true := by
  simp [Link.readded, h, LinkState.isDown]

theorem Remade.backed {io : Nat → Io} {m : LinkMessage} {s : Iface} {l : Link}
    (h : Remade io m s l) (hs : s.userdata.Backed)
    (hm : MacChanges m s → s.client.IsRunning →
      s.userdata.state = .failed ∨ ¬s.userdata.AwaitsAddress) :
    l.Backed ∧ (l.AwaitsAddress ↔ s.userdata.AwaitsAddress) := by
  cases h with
  | same => exact ⟨hs.readded, readded_awaitsAddress _⟩
  | idle _ => exact ⟨hs.readded, readded_awaitsAddress _⟩
  | @restarted mac _ hch hc hn =>
    have hl : ({ s.userdata.readded with mac := mac } : Link).Backed := hs.readded
    have ha : ({ s.userdata.readded with mac := mac } : Link).AwaitsAddress ↔
      s.userdata.AwaitsAddress := readded_awaitsAddress _
    refine ⟨(hl.stopped ?_).noted hn, ?_⟩
    · obtain hf | hna := hm hch hc
      · exact .inl (readded_isDown hf)
      · exact .inr fun h => hna (ha.mp h)
    · obtain ⟨fs, rfl⟩ := hn
      refine Iff.trans ?_ ha
      unfold Link.stopped
      split
      · rfl
      · exact Link.lost_awaitsAddress (io 1) _

theorem Gained.backed {io : Io} {l l' : Link} (h : Gained io l l') (hl : l.Backed) : l'.Backed := by
  have hlog : (l.log .acquiringLease).Backed := hl
  cases h with
  | ignored _ => exact hl
  | started _ hn => exact hlog.noted hn
  | failed _ hn _ => exact (hlog.noted hn).fail

theorem Effect.backed {s : Iface} {c : Occurrence} {l : Link}
    (h : Effect c.io s c.event l) (hs : s.userdata.Backed)
    (hg : KeepsRequestedLease (some s) c) : l.Backed := by
  obtain ⟨io, e, sent, out⟩ := c
  cases h with
  | carrierSame hl _ =>
    exact (hl.backed hs fun hm hc => hg.not_awaits hs fun hf => .macChanged hf hm hc).1
  | carrierGained hl _ _ hgain =>
    exact hgain.backed
      (hl.backed hs fun hm hc => hg.not_awaits hs fun hf => .macChanged hf hm hc).1
  | @carrierLost _ l hl hcs hcm =>
    obtain ⟨hb, ha⟩ :=
      hl.backed hs fun hm hc => hg.not_awaits hs fun hf => .macChanged hf hm hc
    refine Link.Backed.stopped (l := Link.log _ { l with carrier := _ }) hb ?_
    obtain hf | hna := hg.not_awaits hs fun hf => .carrierLost hf hcs hcm
    · exact .inl (hl.state_eq ▸ readded_isDown hf)
    · exact .inr fun h => hna (ha.mp h)
  | delLink =>
    unfold Link.dropped
    split <;> exact hs
  | newAddr h =>
    obtain ⟨_, _, rfl | ⟨-, rfl⟩⟩ := Link.newAddr_frame h <;> exact hs
  | delAddr h =>
    obtain ⟨_, _, rfl | ⟨-, rfl⟩⟩ := Link.delAddr_frame h <;> exact hs
  | reply hq h =>
    refine Link.Backed.replied ?_ h
    exact fun ⟨a, ha⟩ => hs ⟨a, List.mem_of_mem_eraseIdx ha⟩
  | ignored hn => exact hs.noted hn
  | @acknowledged m lease ev l x hacc he hn hx =>
    have hl := hs.noted hn
    unfold Link.notified
    split
    · exact hl
    next hd =>
    have hstate : s.userdata.state = l.state ∧
        (s.userdata.AwaitsAddress ↔ l.AwaitsAddress) := by
      obtain ⟨fs, rfl⟩ := hn
      exact ⟨rfl, Iff.rfl⟩
    cases ev with
    | ipChange =>
      refine .acquired ?_
      obtain ⟨hio, rfl⟩ | ⟨_, _, rfl⟩ := hx
      · -- the old lease is gone and the new one was lost with the socket
        left
        intro ha
        have ha := hstate.2.mpr ((Link.lost_awaitsAddress _ _).mp ha)
        exact absurd (.changeFailed hacc he hio) (hg s rfl ha (hs ha))
      · exact .inr (by simp)
    | renew => exact hl.renewed
    | ipAcquire => exact .acquired (.inl hl)
    | stop => exact absurd he (notifyEvent_ne_stop _ _)
    | expired => exact absurd he (notifyEvent_ne_expired _ _)
    | error r => exact hl
  | resend hn => exact hs.noted hn
  | t1 hn => exact hs.noted hn
  | t2 hn => exact hs.noted hn
  | expire hn =>
    refine (hs.stopped ?_).noted hn
    by_cases hd : s.userdata.state.isDown
    · exact .inl hd
    · exact .inr fun ha => hg s rfl ha (hs ha) (.expire (by simpa using hd))

/-- In a run that keeps every lease for which an address has been requested until the reply is
there, `link_set_dhcp_routes` always finds a lease. -/
theorem setDhcpRoutes_never_aborts {os : List Occurrence} {o : Option Iface}
    (h : Run (Guarded KeepsRequestedLease LinkStep) none os o) (io : Nat → Io) (e : Event) :
    handleEvent io o e ≠ some (.error .setDhcpRoutes) := by
  have hinv : ∀ s, o = some s → s.userdata.Backed := by
    refine Run.invariant (I := fun o => ∀ s, o = some s → s.userdata.Backed) ?_ h (by simp)
    intro o c o' ho hstep
    refine hstep.2.keeps (fun l hl => hl) ?_ ?_
    · intro m l ha hw
      obtain ⟨a, hw⟩ := hw
      cases ha.fresh.pending _ hw
    · intro s l hs heff
      subst hs
      exact heff.backed (ho s rfl) hstep.1
  intro habort
  obtain ⟨s, rfl, hs⟩ := handleEvent_error habort
  cases hs with
  | setDhcpRoutes hq hl => exact hinv s rfl ⟨_, List.mem_of_getElem? hq⟩ hl

/-- The reply of the kernel to the address of a lease just acquired. -/
theorem setDhcpRoutes_never_aborts_acquisition :
    ∃ os o, Run (Guarded KeepsRequestedLease LinkStep) none os o ∧
      (handleEvent (fun _ => quietIo 1300000) o (.reply 0 0)).isSome ∧
      handleEvent (fun _ => quietIo 1300000) o (.reply 0 0) ≠ some (.error .setDhcpRoutes) := by
  have hex : (execute none (acquisition sampleOptions)).any (fun (_, o) =>
      (handleEvent (fun _ => quietIo 1300000) o (.reply 0 0)).isSome) := by decide +kernel
  obtain ⟨⟨os, o⟩, ho, hreply⟩ := (Option.any_eq_true _ _).mp hex
  have hrun := @execute_run_new KeepsRequestedLease _ _ _ _ ho (by
      intro c s hs
      cases hs) (by
    intro p hp s sent out s' hs' _ _ hgive
    simp only [List.mem_cons, List.not_mem_nil, or_false] at hp
    obtain rfl | rfl | rfl | rfl := hp
    · cases hgive
    · cases hgive with | changeFailed _ _ hio => exact absurd hio (by simp [quietIo])
    · cases hgive
    · cases hgive with | changeFailed _ _ hio => exact absurd hio (by simp [quietIo]))
  exact ⟨os, o, hrun, hreply, setDhcpRoutes_never_aborts hrun _ _⟩

/-- The carrier is lost before the reply to the address request is there. -/
theorem setDhcpRoutes_aborts_after_loss :
    ∃ os o, Run LinkStep none os o ∧
      handleEvent (fun _ => quietIo 1400000) o (.reply 0 0) = some (.error .setDhcpRoutes) := by
  have hex : (execute none (acquisition sampleOptions ++
      [(1300000, .newLink { carrier := false, mac := some 1 })])).any (fun (_, o) =>
        abortOf (handleEvent (fun _ => quietIo 1400000) o (.reply 0 0)) = some .setDhcpRoutes) := by
    decide +kernel
  obtain ⟨os, o, hrun, habort⟩ := execute_reaches hex
  exact ⟨os, o, hrun, eq_of_abortOf (by simpa using habort)⟩

/-! ## The state of a link that becomes ready -/

/-- The states that a link reaches when it fails, is removed or comes back after a removal. -/
def LinkState.isAstray (s : LinkState) : Bool := s.isDown || s = .enslaving

/-- The event has a link checked that has left the way to `CONFIGURED`, or makes it fail just
before the check. -/
inductive ChecksAstray (s : Iface) : Event → Prop
  | newAddr {a : Addr} {ready : Bool} (hd : s.userdata.dhcp4Configured = true)
      (hs : s.userdata.state.isAstray = true) : ChecksAstray s (.newAddr a ready)
  | delAddr {a : Addr} (hd : s.userdata.dhcp4Configured = true)
      (hs : s.userdata.state.isAstray = true) : ChecksAstray s (.delAddr a)
  | lastRoute {i : Nat} {r : Int} {route : Route}
      (hq : s.userdata.pending[i]? = some (.newRoute route)) (hm : s.userdata.dhcp4Messages = 1)
      (hs : s.userdata.state.isAstray = true ∨ isError r eexist = true) :
      ChecksAstray s (.reply i r)

/-- The static configuration is done only on the way to `CONFIGURED`, or after leaving it. -/
def Link.Orderly (l : Link) : Prop :=
  l.staticConfigured = true →
    l.state = .settingRoutes ∨ l.state = .configured ∨ l.state.isAstray = true

theorem Link.Orderly.stays {l l' : Link} (h : l.Orderly) (hs : l.Stays l') : l'.Orderly := by
  intro hc
  obtain he | he | ⟨-, he⟩ := hs.state
  · rw [he]
    exact h (hs.static ▸ hc)
  · exact .inr (.inr (by simp [he, LinkState.isAstray, LinkState.isDown]))
  · exact .inr (.inl he)

theorem Effect.orderly {io : Nat → Io} {s : Iface} {e : Event} {l : Link} (h : Effect io s e l)
    (hs : s.userdata.Orderly) : l.Orderly := by
  obtain ⟨-, rfl⟩ | ⟨-, hst⟩ | ⟨-, hst⟩ := h.stays
  · unfold Link.dropped
    split
    · exact hs
    · exact fun _ => .inr (.inr rfl)
  · refine Link.Orderly.stays ?_ hst
    unfold Link.readded
    split
    · exact fun _ => .inr (.inr rfl)
    · exact hs
  · exact hs.stays hst

theorem orderly_of_run {os : List Occurrence} {o : Option Iface} (h : Run LinkStep none os o) :
    ∀ s, o = some s → s.userdata.Orderly := by
  refine Run.invariant (I := fun o => ∀ s, o = some s → s.userdata.Orderly) ?_ h (by simp)
  intro o c o' ho hstep
  refine hstep.keeps (fun l hl => hl) ?_ fun s l hs heff => heff.orderly (ho s hs)
  intro m l ha hc
  cases ha with
  | unmanaged _ _ _ hf => simp [hf] at hc
  | failed _ _ hs _ => exact .inr (.inr (by simp [hs, LinkState.isAstray, LinkState.isDown]))
  | settingRoutes _ _ hs _ => exact .inl hs

/-- In every run, `link_enter_configured` finds the link setting its routes, unless the check was
made on a link that had left the way to `CONFIGURED` or failed with that very reply. -/
theorem enterConfigured_never_aborts {os : List Occurrence} {o : Option Iface}
    (h : Run LinkStep none os o) {io : Nat → Io} {e : Event}
    (hg : ∀ s, o = some s → ¬ChecksAstray s e) :
    handleEvent io o e ≠ some (.error .enterConfigured) := by
  intro habort
  obtain ⟨s, rfl, hs⟩ := handleEvent_error habort
  have hg := hg s rfl
  have hord := orderly_of_run h s rfl
  have hastray (hc : s.userdata.staticConfigured = true)
      (hst : s.userdata.state ≠ .configured ∧ s.userdata.state ≠ .settingRoutes) :
      s.userdata.state.isAstray = true :=
    ((hord hc).resolve_left hst.2).resolve_left hst.1
  cases hs with
  | lastRoute hq hm hc hst => exact hg (.lastRoute hq hm (hst.symm.imp (hastray hc) id))
  | newAddr hl => exact hg (.newAddr hl.dhcp4 (hastray hl.static hl.state))
  | delAddr hl => exact hg (.delAddr hl.dhcp4 (hastray hl.static hl.state))

/-- The lease is acquired, its address is confirmed and one of its two routes. -/
def nearlyConfigured : List (Nat × Event) :=
  acquisition sampleOptions ++
    [(1300000, Event.reply 0 0), (1300000, .newAddr ⟨.inet 0xc0a80064, 24⟩ true),
      (1400000, .reply 0 0)]

/-- The last route is confirmed. -/
theorem enterConfigured_never_aborts_confirmed :
    ∃ os s, Run LinkStep none os (some s) ∧ ¬ChecksAstray s (.reply 0 0) ∧
      (handleEvent (fun _ => quietIo 1500000) (some s) (.reply 0 0)).isSome ∧
      handleEvent (fun _ => quietIo 1500000) (some s) (.reply 0 0) ≠
        some (.error .enterConfigured) := by
  have hex : (execute none nearlyConfigured).any (fun (_, o) => o.any fun s =>
      s.userdata.state = .settingRoutes &&
        (handleEvent (fun _ => quietIo 1500000) (some s) (.reply 0 0)).isSome) := by decide +kernel
  obtain ⟨os, o, hrun, ho⟩ := execute_reaches hex
  obtain ⟨s, rfl, hp⟩ := (Option.any_eq_true _ _).mp ho
  simp only [Bool.and_eq_true, decide_eq_true_eq] at hp
  have hg : ¬ChecksAstray s (.reply 0 0) := by
    intro hc
    cases hc with
    | lastRoute _ _ hs =>
      obtain hs | hs := hs
      · rw [hp.1] at hs
        cases hs
      · cases hs
  refine ⟨os, s, hrun, hg, hp.2, enterConfigured_never_aborts hrun fun s' hs' => ?_⟩
  cases hs'
  exact hg

/-- The kernel refuses the last route: the link fails and is then checked. -/
theorem enterConfigured_aborts_after_refusal :
    ∃ os o, Run LinkStep none os o ∧
      handleEvent (fun _ => quietIo 1500000) o (.reply 0 (-101)) =
        some (.error .enterConfigured) := by
  have hex : (execute none nearlyConfigured).any (fun (_, o) =>
      abortOf (handleEvent (fun _ => quietIo 1500000) o (.reply 0 (-101))) =
        some .enterConfigured) := by decide +kernel
  obtain ⟨os, o, hrun, habort⟩ := execute_reaches hex
  exact ⟨os, o, hrun, eq_of_abortOf (by simpa using habort)⟩

end CarFi.Roamingd

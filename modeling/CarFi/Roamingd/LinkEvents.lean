import CarFi.Roamingd.Effects

/-!
# The events of a link

`Effect` lists, event by event, what the daemon can do to the link of an interface, and
`Fresh` describes a link that has just been added. Both leave the client out, but for what it
was in before the event.
-/
namespace CarFi.Roamingd

open Attached

namespace Link

/-- The link of an interface that is announced again after its removal. -/
def readded (l : Link) : Link :=
  if l.state = .linger then { l.log .linkReadded with state := .enslaving } else l

end Link

/-- The message brings a hardware address that is new. -/
def MacChanges (m : LinkMessage) (s : Iface) : Prop :=
  ∃ mac, m.mac = some mac ∧ mac ≠ s.userdata.mac

/-- The client is restarted when its hardware address changes. -/
def DhcpClient.IsRunning (c : DhcpClient) : Prop := ¬(c.state = .init ∨ c.state = .stopped)

/-- The client is about to send its first message. -/
def DhcpClient.IsStarted (c : DhcpClient) : Prop :=
  c.timeoutResend = some 0 ∧ c.fd = some .raw ∧ (c.state = .init ∨ c.state = .initReboot)

/-- What the first part of `link_update` makes of the link. -/
inductive Remade (io : Nat → Io) (m : LinkMessage) (s : Iface) : Link → Prop
  | same : Remade io m s s.userdata.readded
  | idle {mac : Nat} (hm : MacChanges m s) :
      Remade io m s { s.userdata.readded with mac := mac }
  | restarted {mac : Nat} {l : Link} (hm : MacChanges m s) (hc : s.client.IsRunning)
      (h : (Link.stopped (io 1) { s.userdata.readded with mac := mac }).Noted l) : Remade io m s l

/-- What `link_carrier_gained` makes of the link. -/
inductive Gained (io : Io) : Link → Link → Prop
  | ignored {l : Link} (h : l.state = .pending ∨ l.state = .unmanaged ∨ l.state = .failed) :
      Gained io l l
  | started {l l' : Link}
      (h : ¬(l.state = .pending ∨ l.state = .unmanaged ∨ l.state = .failed))
      (hn : (l.log .acquiringLease).Noted l') : Gained io l l'
  | failed {l l' : Link} (h : ¬(l.state = .pending ∨ l.state = .unmanaged ∨ l.state = .failed))
      (hn : (l.log .acquiringLease).Noted l') (hio : ¬∀ c, 0 ≤ io.result c) :
      Gained io l l'.fail

/-- What an event can make of the link of an interface. -/
inductive Effect (io : Nat → Io) (s : Iface) : Event → Link → Prop
  | carrierSame {m : LinkMessage} {l : Link} (hl : Remade io m s l)
      (hc : m.carrier = s.userdata.carrier) :
      Effect io s (.newLink m) { l with carrier := m.carrier }
  | carrierGained {m : LinkMessage} {l l' : Link} (hl : Remade io m s l)
      (hs : s.userdata.carrier = false) (hm : m.carrier = true)
      (hg : Gained (io 0) (Link.log .gainedCarrier { l with carrier := m.carrier }) l') :
      Effect io s (.newLink m) l'
  | carrierLost {m : LinkMessage} {l : Link} (hl : Remade io m s l)
      (hs : s.userdata.carrier = true) (hm : m.carrier = false) :
      Effect io s (.newLink m)
        ((Link.log .lostCarrier { l with carrier := m.carrier }).stopped (io 0))
  | delLink : Effect io s .delLink s.userdata.dropped
  | newAddr {a : Addr} {ready : Bool} {l : Link} (h : s.userdata.newAddr a ready = .ok l) :
      Effect io s (.newAddr a ready) l
  | delAddr {a : Addr} {l : Link} (h : s.userdata.delAddr a = .ok l) : Effect io s (.delAddr a) l
  | reply {i : Nat} {r : Int} {q : Request} {l : Link} (hq : s.userdata.pending[i]? = some q)
      (h : Link.replied (io 0) r
        { s.userdata with pending := s.userdata.pending.eraseIdx i } q = .ok l) :
      Effect io s (.reply i r) l
  | ignored {m : Message} {l : Link} (h : s.userdata.Noted l) : Effect io s (.receive m) l
  | acknowledged {m : Message} {lease : Lease} {e : ClientEvent} {l : Link} {x : Option Lease}
      (ha : s.client.accepted m = some lease)
      (he : notifyEvent s.client lease = some e) (hl : s.userdata.Noted l)
      (hx : (io 0).result .addIo < 0 ∧ x = none ∨
        ∃ u1 u2, x = some { lease with t1 := u1, t2 := u2 }) :
      Effect io s (.receive m) (l.notified (io 0) e x)
  | resend {l : Link} (h : s.userdata.Noted l) : Effect io s .resend l
  | t1 {l : Link} (h : s.userdata.Noted l) : Effect io s .t1 l
  | t2 {l : Link} (h : s.userdata.Noted l) : Effect io s .t2 l
  | expire {l : Link} (h : (s.userdata.stopped (io 0)).Noted l) : Effect io s .expire l

namespace Attached

theorem dhcp4Handler_error_noted {io : Io} {l : Link} (r : Int) (s : Iface)
    (h : l.Noted s.userdata) : l.Noted (dhcp4Handler io (.error r) s).userdata := by
  rw [dhcp4Handler_userdata]
  unfold Link.notified
  split
  · exact h
  · exact h.log _ _

theorem dhcp4Handler_stop (io : Io) (s : Iface) :
    (dhcp4Handler io .stop s).userdata = s.userdata.stopped io :=
  dhcp4Handler_userdata io s .stop

/-- A link that has been told to stop has nothing more to lose. -/
theorem stopped_noted {io io' : Io} {l l' : Link} (h : (l.stopped io).Noted l') :
    l'.stopped io' = l' := by
  obtain ⟨fs, rfl⟩ := h
  unfold Link.stopped
  by_cases hd : l.state.isDown
  · simp [hd]
  · cases hl : l.dhcpLease <;> simp [hd, hl, Link.lost, Link.leaseLost]

/-- A stop takes nothing from the link but its lease. -/
theorem stopped_frame (io : Io) (l : Link) :
    ∃ d c p t o, l.stopped io = { l with
      dhcpLease := d, dhcp4Configured := c, pending := p, sent := t, out := o } := by
  unfold Link.stopped Link.lost
  split
  · exact ⟨_, _, _, _, _, rfl⟩
  split
  · exact ⟨_, _, _, _, _, rfl⟩
  · rw [Link.leaseLost_eq]
    exact ⟨_, _, _, _, _, rfl⟩

theorem stopped_carrier {io : Io} {l l' : Link} (h : (l.stopped io).Noted l') :
    l'.carrier = l.carrier := by
  obtain ⟨fs, rfl⟩ := h
  obtain ⟨d, c, p, t, o, h⟩ := stopped_frame io l
  simp [h]

theorem restart_noted {io io' : Io} {l : Link} {s : Iface}
    (h : l.Noted (s.userdata.stopped io)) :
    l.Noted (sdDhcpClientStart (dhcp4Handler io) io'
      (clientStop (dhcp4Handler io) .stop s)).2.userdata := by
  refine sdDhcpClientStart_keeps dhcp4Handler_error_noted ?_
  simpa [clientStop, dhcp4Handler_stop] using h

theorem setMac_userdata (io : Io) (s : Iface) :
    (s.client.IsRunning ∧ (s.userdata.stopped io).Noted
      (sdDhcpClientSetMac (dhcp4Handler io) io s).userdata) ∨
      ¬s.client.IsRunning ∧ sdDhcpClientSetMac (dhcp4Handler io) io s = s := by
  unfold sdDhcpClientSetMac DhcpClient.IsRunning
  by_cases hc : s.client.state = .init ∨ s.client.state = .stopped
  · exact .inr ⟨fun h => h hc, if_pos hc⟩
  · refine .inl ⟨hc, ?_⟩
    rw [if_neg hc]
    dsimp only
    split
    · rw [clientStop, setClient_userdata, dhcp4Handler_stop]
      exact .refl _
    · exact restart_noted (.refl _)

theorem setIaidDuid_userdata {io io' : Io} {l : Link} {s : Iface}
    (h : (l.stopped io').Noted s.userdata) :
    (l.stopped io').Noted (sdDhcpClientSetIaidDuid (dhcp4Handler io) io s).userdata := by
  unfold sdDhcpClientSetIaidDuid
  split
  · exact h
  · refine restart_noted ?_
    rw [stopped_noted h]
    exact h

theorem setIaidDuid_idle {io : Io} {s : Iface} (h : ¬s.client.IsRunning) :
    sdDhcpClientSetIaidDuid (dhcp4Handler io) io s = s :=
  if_pos (not_not.mp h)

theorem changeMac_remade (io : Nat → Io) (m : LinkMessage) (s : Iface) :
    Remade io m s (changeMac io m.mac { s with userdata := s.userdata.readded }).userdata := by
  have hmac : s.userdata.readded.mac = s.userdata.mac := by
    unfold Link.readded
    split <;> rfl
  unfold changeMac
  cases hm : m.mac with
  | none => exact .same
  | some mac =>
    dsimp only
    by_cases heq : mac = s.userdata.readded.mac
    · rw [if_pos heq]
      exact .same
    · rw [if_neg heq]
      have hch : MacChanges m s := ⟨mac, hm, fun h => heq (h.trans hmac.symm)⟩
      obtain ⟨hc, hn⟩ | ⟨hc, hs⟩ := setMac_userdata (io 1)
        (mapLink (fun l => { l with mac := mac }) { s with userdata := s.userdata.readded })
      · exact .restarted hch hc (setIaidDuid_userdata hn)
      · rw [hs, setIaidDuid_idle hc]
        exact .idle hch

theorem acquireConf_noted (io : Io) (s : Iface) :
    (s.userdata.log .acquiringLease).Noted (acquireConf io s).2.userdata := by
  have h : (s.userdata.log .acquiringLease).Noted
      (sdDhcpClientStart (dhcp4Handler io) io (s.logLink .acquiringLease)).2.userdata :=
    sdDhcpClientStart_keeps dhcp4Handler_error_noted (.refl _)
  unfold acquireConf
  dsimp only
  split
  · exact h.log _ _
  · exact h

/-- If no call fails, a start leaves the client ready to send. -/
theorem acquireConf_started {io : Io} (hio : ∀ c, 0 ≤ io.result c) (s : Iface) :
    (acquireConf io s).1 = 0 ∧ (acquireConf io s).2.client.IsStarted := by
  have hneg (c : Call) : ¬io.result c < 0 := Int.not_lt.mpr (hio c)
  by_cases ha : s.client.lastAddr = 0 <;>
    simp [acquireConf, sdDhcpClientStart, clientStart, clientStartDelayed, initializeEvents,
      initializeIoEvents, initializeTimeEvents, hneg, DhcpClient.reset, DhcpClient.IsStarted, ha,
      logLink]

theorem carrierGained_gained (io : Io) (s : Iface) :
    Gained io s.userdata (carrierGained io s).userdata := by
  unfold carrierGained
  dsimp only
  split
  · next h => exact .ignored h
  · next h =>
    split
    · next hneg =>
      rw [enterFailed_userdata]
      refine .failed h (acquireConf_noted io s) fun hio => ?_
      rw [(acquireConf_started hio s).1] at hneg
      omega
    · exact .started h (acquireConf_noted io s)

theorem carrierLost_userdata (io : Io) (s : Iface) :
    (carrierLost io s).userdata = s.userdata.stopped io :=
  dhcp4Handler_stop io s

end Attached

theorem Remade.carrier {io : Nat → Io} {m : LinkMessage} {s : Iface} {l : Link}
    (h : Remade io m s l) : l.carrier = s.userdata.carrier := by
  have hr : s.userdata.readded.carrier = s.userdata.carrier := by
    unfold Link.readded
    split <;> rfl
  cases h with
  | same => exact hr
  | idle _ => exact hr
  | restarted _ _ hn => exact (stopped_carrier hn).trans hr

namespace Attached

theorem linkUpdate_effect (io : Nat → Io) (m : LinkMessage) (s : Iface) :
    Effect io s (.newLink m) (s.linkUpdate io m).userdata := by
  have hre : (if s.userdata.state = .linger then
      s.mapLink fun l => { l.log .linkReadded with state := .enslaving } else s) =
      { s with userdata := s.userdata.readded } := by
    unfold Link.readded
    split <;> rfl
  have hl := changeMac_remade io m s
  unfold linkUpdate
  dsimp only
  rw [hre]
  generalize changeMac io m.mac { s with userdata := s.userdata.readded } = t at hl ⊢
  rw [hl.carrier]
  split
  · next h =>
    exact .carrierGained hl (by simpa using h.1) h.2
      (carrierGained_gained (io 0)
        ((t.mapLink fun l => { l with carrier := m.carrier }).logLink .gainedCarrier))
  · split
    · next h =>
      rw [carrierLost_userdata]
      exact .carrierLost hl h.1 (by simpa using h.2)
    · next h₁ h₂ =>
      refine .carrierSame hl ?_
      cases hs : s.userdata.carrier <;> cases hc : m.carrier <;> simp_all

/-! ## Messages and timers -/

theorem getLease_reset (c : DhcpClient) : c.reset.getLease = none := by
  simp [DhcpClient.getLease, DhcpClient.reset]

theorem Timed.getLease {l : Lease} {c c' : DhcpClient} (h : Timed l c c') (hc : c.state = .bound) :
    ∃ u1 u2, c'.getLease = some { l with t1 := u1, t2 := u2 } := by
  obtain ⟨u1, u2, d1, d2, d3, rfl⟩ := h
  exact ⟨u1, u2, by simp [DhcpClient.getLease, hc]⟩

theorem acknowledge_effect {io : Nat → Io} {m : Message} {lease : Lease} {s t : Iface}
    (ha : s.client.accepted m = some lease)
    (h : acknowledge (dhcp4Handler (io 0)) (io 0) lease s = .ok t) :
    Effect io s (.receive m) t.userdata := by
  obtain ⟨c, hc, ⟨r, -, rfl⟩ | ⟨hneg, rfl⟩ | rfl⟩ := acknowledge_cases h
  · exact .ignored (dhcp4Handler_error_noted r _ (.refl _))
  · have hn : s.userdata.Noted
        (clientStop (dhcp4Handler (io 0)) (.error ((io 0).result .addIo))
          { s with client := { c with fd := some (.udp lease.address) } }).userdata :=
      dhcp4Handler_error_noted _ _ (.refl _)
    cases he : notifyEvent s.client lease with
    | none => exact .ignored hn
    | some e =>
      rw [clientNotify, dhcp4Handler_userdata]
      exact .acknowledged ha he hn (.inl ⟨hneg, getLease_reset _⟩)
  · cases he : notifyEvent s.client lease with
    | none => exact .ignored (.refl _)
    | some e =>
      rw [clientNotify, dhcp4Handler_userdata]
      obtain ⟨u1, u2, hl⟩ := hc.getLease rfl
      exact .acknowledged ha he (.refl _) (.inr ⟨u1, u2, hl⟩)

theorem receive_effect {io : Nat → Io} {m : Message} {s t : Iface}
    (h : clientReceiveMessage (dhcp4Handler (io 0)) (io 0) m s = .ok t) :
    Effect io s (.receive m) t.userdata := by
  have hrefl := Link.Noted.refl s.userdata
  unfold clientReceiveMessage at h
  split at h
  swap
  · cases h
    exact .ignored hrefl
  next hx =>
  unfold clientHandleMessage at h
  split at h
  · split at h
    · cases h
      exact .ignored hrefl
    · dsimp only at h
      split at h <;> cases h
      · exact .ignored (dhcp4Handler_error_noted _ _ hrefl)
      · exact .ignored hrefl
  iterate 4
    · next hs hm =>
      split at h
      · cases h
        exact .ignored hrefl
      · next ho =>
        refine acknowledge_effect ?_ h
        have hxid : m.xid = s.client.xid := by simpa [hs] using hx
        simp [DhcpClient.accepted, DhcpClient.awaitsReply, hm, hs, hxid, ho]
  iterate 4
    · cases h
      exact .ignored (refuse_keeps dhcp4Handler_error_noted hrefl)
  · cases h
    exact .ignored (clientTimeoutT1_keeps dhcp4Handler_error_noted hrefl)
  · cases h
    exact .ignored (dhcp4Handler_error_noted _ _ hrefl)
  · cases h
    exact .ignored hrefl

theorem expire_noted (io : Io) (s : Iface) :
    (s.userdata.stopped io).Noted (clientTimeoutExpire (dhcp4Handler io) io s).userdata := by
  have h : (dhcp4Handler io .expired s).userdata = s.userdata.stopped io :=
    dhcp4Handler_userdata io s .expired
  unfold clientTimeoutExpire
  dsimp only
  split
  · rw [h]
    exact .refl _
  · refine clientStartDelayed_keeps dhcp4Handler_error_noted ?_
    change (s.userdata.stopped io).Noted (dhcp4Handler io .expired s).userdata
    rw [h]
    exact .refl _

theorem map_ok {x : Except Abort Link} {s t : Iface}
    (h : (x.map fun l => ({ s with userdata := l } : Iface)) = .ok t) : x = .ok t.userdata := by
  cases x with
  | error a => cases h
  | ok l => cases h; rfl

/-- Every event that the daemon handles has one of the listed effects. -/
theorem handle_effect {io : Nat → Io} {s t : Iface} {e : Event}
    (h : s.handle io e = some (.ok t)) : Effect io s e t.userdata := by
  have hrefl := Link.Noted.refl s.userdata
  cases e with
  | newLink m =>
    cases h
    exact linkUpdate_effect io m s
  | delLink =>
    cases h
    rw [linkDrop_userdata]
    exact .delLink
  | newAddr a ready => exact .newAddr (map_ok (Option.some.inj h))
  | delAddr a => exact .delAddr (map_ok (Option.some.inj h))
  | reply i r =>
    obtain ⟨q, hq, h⟩ := Option.map_eq_some_iff.mp h
    exact .reply hq
      ((handleReply_userdata (io 0) _ r q).symm.trans (congrArg (Except.map userdata) h))
  | receive m =>
    simp only [Attached.handle] at h
    split at h
    · exact receive_effect (Option.some.inj h)
    · cases h
  | resend =>
    obtain ⟨-, -, h⟩ := Option.map_eq_some_iff.mp h
    cases h
    exact .resend (clientTimeoutResend_keeps dhcp4Handler_error_noted hrefl)
  | t1 =>
    obtain ⟨-, -, h⟩ := Option.map_eq_some_iff.mp h
    cases h
    exact .t1 (clientTimeoutT1_keeps dhcp4Handler_error_noted hrefl)
  | t2 =>
    obtain ⟨-, -, h⟩ := Option.map_eq_some_iff.mp h
    cases h
    exact .t2 (clientTimeoutT2_keeps dhcp4Handler_error_noted hrefl)
  | expire =>
    obtain ⟨-, -, h⟩ := Option.map_eq_some_iff.mp h
    cases h
    exact .expire (expire_noted (io 0) _)

end Attached

/-! ## New links -/

/-- What holds of a link that is being added, whatever its state. -/
structure Fresh (m : LinkMessage) (l : Link) : Prop where
  managed : l.managed = m.managed
  carrier : l.carrier = m.carrier
  mac : l.mac = m.mac.getD 0
  lease : l.dhcpLease = none
  unconfigured : l.dhcp4Configured = false
  messages : l.dhcp4Messages = 0
  pending : ∀ q ∈ l.pending, q = .setLink
  sent : ∀ q ∈ l.sent, q = .setLink
  unique : (l.addresses.map AddrEntry.addr).Nodup

/-- The states in which a new link is left: the static configuration is done if and only if
nothing failed. -/
inductive Added (m : LinkMessage) (l : Link) : Prop
  | unmanaged (hm : m.managed = false) (hl : Fresh m l) (hs : l.state = .unmanaged)
      (hc : l.staticConfigured = false)
  | failed (hm : m.managed = true) (hl : Fresh m l) (hs : l.state = .failed)
      (hc : l.staticConfigured = false)
  | settingRoutes (hm : m.managed = true) (hl : Fresh m l) (hs : l.state = .settingRoutes)
      (hc : l.staticConfigured = true)

theorem Added.fresh {m : LinkMessage} {l : Link} (h : Added m l) : Fresh m l := by
  cases h <;> assumption

theorem Fresh.noted {m : LinkMessage} {l l' : Link} (h : Fresh m l) (hn : l.Noted l') :
    Fresh m l' := by
  obtain ⟨fs, rfl⟩ := hn
  exact { h with }

namespace Attached

theorem linkNew_fresh (m : LinkMessage) :
    Fresh m (linkNew m).userdata ∧ (linkNew m).userdata.state = .pending ∧
      (linkNew m).userdata.staticConfigured = false := by
  have hadd (as : List Addr) (l : Link) (hu : (l.addresses.map AddrEntry.addr).Nodup) :
      ∃ own foreign, as.foldl (fun l a => l.addressAdd a) l =
        { l with addresses := own, addressesForeign := foreign } ∧
          (own.map AddrEntry.addr).Nodup := by
    induction as generalizing l with
    | nil => exact ⟨_, _, rfl, hu⟩
    | cons a as ih =>
      obtain ⟨o, f, h⟩ := Link.addressAdd_frame a l
      obtain ⟨o', f', h', hu'⟩ := ih (l.addressAdd a) (Link.addressAdd_unique hu)
      exact ⟨o', f', by rw [List.foldl_cons, h', h], hu'⟩
  obtain ⟨o, f, h, hu⟩ := hadd m.savedAddresses
    { managed := m.managed, mac := m.mac.getD 0, carrier := m.carrier, out := [.linkAdded] }
    List.nodup_nil
  unfold linkNew
  simp only [h]
  exact ⟨⟨rfl, rfl, rfl, rfl, rfl, rfl, by simp, by simp, hu⟩, by simp⟩

/-- The link leaves the state `PENDING`, with its static configuration done or not at all. -/
def Configured (m : LinkMessage) (r : Int) (l : Link) : Prop :=
  Fresh m l ∧ (0 ≤ r ∧ l.state = .settingRoutes ∧ l.staticConfigured = true ∨
    r < 0 ∧ l.state ≠ .linger ∧ l.staticConfigured = false)

theorem enterSetRoutes_configured {m : LinkMessage} {s : Iface} (hs : Fresh m s.userdata) :
    ∃ t, enterSetRoutes s = .ok t ∧ Configured m 0 t.userdata := by
  unfold enterSetRoutes Link.checkReady
  rw [if_neg (by simp [hs.unconfigured])]
  exact ⟨_, rfl, { hs with }, .inl ⟨Int.le_refl 0, rfl, rfl⟩⟩

theorem enterJoinNetdev_configured {io : Io} {m : LinkMessage} {s : Iface}
    (hs : Fresh m s.userdata) (hc : s.userdata.staticConfigured = false) :
    ∃ r t, enterJoinNetdev io m.up s = .ok (r, t) ∧ Configured m r t.userdata := by
  unfold enterJoinNetdev
  dsimp only
  split
  · have hs' : Fresh m (s.mapLink fun l => { l with state := .enslaving }).userdata :=
      { hs with }
    obtain ⟨t, ht, hconf⟩ := enterSetRoutes_configured hs'
    exact ⟨0, t, congrArg (Except.map _) ht, hconf⟩
  split
  · next hneg =>
    refine ⟨_, _, rfl, ?_, .inr ⟨hneg, ?_, ?_⟩⟩ <;>
      simp only [failWith_userdata, logLink_userdata, mapLink_userdata, Link.failWith, Link.fail,
        Link.log, LinkState.isDown]
    · exact { hs with }
    · simp
    · exact hc
  · have hs' : Fresh m (((s.mapLink fun l => { l with state := .enslaving }).logLink
        .bringingUp).mapLink (Link.request .setLink)).userdata := by
      refine { hs with pending := fun q hq => ?_, sent := fun q hq => ?_ }
      · exact (List.mem_append.mp hq).elim (hs.pending q) (by simp)
      · exact (List.mem_append.mp hq).elim (hs.sent q) (by simp)
    obtain ⟨t, ht, hconf⟩ := enterSetRoutes_configured hs'
    exact ⟨0, t, congrArg (Except.map _) ht, hconf⟩

theorem configure_configured {io : Io} {m : LinkMessage} {s : Iface} (hs : Fresh m s.userdata)
    (hp : s.userdata.state = .pending) (hc : s.userdata.staticConfigured = false) :
    ∃ r t, configure io m.up s = .ok (r, t) ∧ Configured m r t.userdata := by
  unfold configure
  split
  · next hneg => exact ⟨_, s, rfl, hs, .inr ⟨hneg, by simp [hp], hc⟩⟩
  split
  · obtain ⟨fs, hf⟩ := acquireConf_noted io s
    have ha : Fresh m (acquireConf io s).2.userdata := by
      rw [hf]
      exact { hs with }
    dsimp only
    split
    · next hneg =>
      exact ⟨_, _, rfl, ha,
        .inr ⟨hneg, by simp [hf, hp, Link.log], by simp [hf, hc, Link.log]⟩⟩
    · exact enterJoinNetdev_configured ha (by simp [hf, hc, Link.log])
  · exact enterJoinNetdev_configured hs hc

/-- Adding a link meets no assertion. -/
theorem linkAdd_added (io : Io) (m : LinkMessage) :
    ∃ r t, linkAdd io m = .ok (r, t) ∧ Added m t.userdata := by
  obtain ⟨hf, hp, hc⟩ := linkNew_fresh m
  have hf' : Fresh m ((linkNew m).logLink .upToDate).userdata := { hf with }
  unfold linkAdd
  dsimp only
  split
  · next hm =>
    obtain ⟨r, s, hconf, hs, ⟨hr, hst, hsc⟩ | ⟨hr, hst, hsc⟩⟩ :=
      @configure_configured io _ _ hf' hp hc
    · rw [hconf]
      dsimp only
      rw [if_neg (by omega)]
      exact ⟨0, s, rfl, .settingRoutes hm hs hst hsc⟩
    · rw [hconf]
      dsimp only
      rw [if_pos hr]
      refine ⟨r, _, rfl, ?_⟩
      rw [enterFailed_userdata]
      by_cases hd : s.userdata.state.isDown
      · rw [Link.fail, if_pos hd]
        refine .failed hm hs ?_ hsc
        simpa [LinkState.isDown, hst] using hd
      · rw [Link.fail, if_neg hd]
        exact .failed hm { hs with } rfl hsc
  · next hm => exact ⟨0, _, rfl, .unmanaged (by simpa using hm) { hf with } rfl hc⟩

/-- The message that announces a link changes nothing more about it. -/
theorem linkUpdate_fresh {io : Nat → Io} {m : LinkMessage} {s : Iface} (hf : Fresh m s.userdata)
    (hs : s.userdata.state ≠ .linger) : s.linkUpdate io m = s := by
  have hmac : changeMac io m.mac s = s := by
    unfold changeMac
    cases hm : m.mac with
    | none => rfl
    | some mac => exact if_pos (by rw [hf.mac, hm]; rfl)
  unfold linkUpdate
  simp only [if_neg hs, hmac, hf.carrier]
  rw [if_neg (by simp), if_neg (by simp)]
  unfold mapLink
  simp [← hf.carrier]

/-- A link comes into being by a message that announces it. -/
theorem handleEvent_none {io : Nat → Io} {e : Event} {x : Except Abort Iface}
    (h : handleEvent io none e = some x) :
    ∃ m r t, e = .newLink m ∧ linkAdd (io 0) m = .ok (r, t) ∧ x = .ok t ∧
      Added m t.userdata := by
  cases e with
  | newLink m =>
    obtain ⟨r, s, hadd, ha⟩ := linkAdd_added (io 0) m
    have hu : s.linkUpdate io m = s := by
      cases ha with
      | unmanaged _ hl hs _ => exact linkUpdate_fresh hl (by simp [hs])
      | failed _ hl hs _ => exact linkUpdate_fresh hl (by simp [hs])
      | settingRoutes _ hl hs _ => exact linkUpdate_fresh hl (by simp [hs])
    simp only [handleEvent, hadd, hu, ite_self, Option.some.injEq] at h
    exact ⟨m, r, s, rfl, hadd, h.symm, ha⟩
  | _ => cases h

end Attached

theorem Remade.state_eq {io : Nat → Io} {m : LinkMessage} {s : Iface} {l : Link}
    (h : Remade io m s l) : l.state = s.userdata.readded.state := by
  cases h with
  | same => rfl
  | idle _ => rfl
  | restarted _ _ hn =>
    obtain ⟨fs, rfl⟩ := hn
    obtain ⟨d, c, p, t, o, h⟩ := stopped_frame (io 1) { s.userdata.readded with mac := _ }
    rw [h]

/-! ## The states of a link -/

/-- The link keeps its configuration, and its state unless it fails or gets configured. -/
structure Link.Stays (l l' : Link) : Prop where
  static : l'.staticConfigured = l.staticConfigured
  managed : l'.managed = l.managed
  state : l'.state = l.state ∨ l'.state = .failed ∨
    l.state = .settingRoutes ∧ l'.state = .configured

namespace Link

theorem Stays.refl (l : Link) : l.Stays l := ⟨rfl, rfl, .inl rfl⟩

theorem Stays.trans {l l' l'' : Link} (h : l.Stays l') (h' : l'.Stays l'') : l.Stays l'' := by
  refine ⟨h'.static.trans h.static, h'.managed.trans h.managed, ?_⟩
  obtain h₂ | h₂ | ⟨h₂, h₃⟩ := h'.state
  · rw [h₂]
    exact h.state
  · exact .inr (.inl h₂)
  · obtain h₁ | h₁ | ⟨h₁, h₁'⟩ := h.state
    · exact .inr (.inr ⟨h₁ ▸ h₂, h₃⟩)
    · rw [h₁] at h₂
      cases h₂
    · rw [h₁'] at h₂
      cases h₂

theorem Stays.noted {l l' : Link} (h : l.Noted l') : l.Stays l' := by
  obtain ⟨fs, rfl⟩ := h
  exact ⟨rfl, rfl, .inl rfl⟩

theorem Stays.fail (l : Link) : l.Stays l.fail := by
  obtain ⟨st, o, hf, hst⟩ := l.fail_frame
  rw [hf]
  exact ⟨rfl, rfl, hst.imp id .inl⟩

theorem Stays.stopped (io : Io) (l : Link) : l.Stays (l.stopped io) := by
  obtain ⟨d, c, p, t, o, h⟩ := stopped_frame io l
  rw [h]
  exact ⟨rfl, rfl, .inl rfl⟩

theorem Stays.lost (io : Io) (l : Link) : l.Stays (l.lost io) := by
  unfold Link.lost
  split
  · exact .refl l
  · rw [leaseLost_eq]
    exact ⟨rfl, rfl, .inl rfl⟩

theorem Stays.checkReady {l l' : Link} (h : l.checkReady = .ok l') : l.Stays l' := by
  obtain rfl | ⟨hs, rfl⟩ := checkReady_frame h
  · exact .refl _
  · exact ⟨rfl, rfl, .inr (.inr ⟨hs, rfl⟩)⟩

theorem Stays.failWith (f : Failure) (r : Int) (l : Link) : l.Stays (l.failWith f r) := by
  obtain ⟨h₁, h₂, h₃⟩ := Stays.fail (l.log (.failure f r))
  exact ⟨h₁, h₂, h₃⟩

theorem Stays.updateAddress (io : Io) (lease : Lease) (l : Link) :
    l.Stays (l.updateAddress io lease) := by
  unfold Link.updateAddress
  split
  · exact .failWith _ _ l
  · obtain ⟨own, foreign, hf⟩ := addressAdd_frame lease.addr (l.request (.newAddr lease.addr))
    rw [hf]
    exact ⟨rfl, rfl, .inl rfl⟩

theorem Stays.acquired (io : Io) (x : Option Lease) (l : Link) : l.Stays (l.acquired io x) := by
  cases x with
  | none => exact .failWith _ _ l
  | some lease =>
    obtain ⟨h₁, h₂, h₃⟩ := Stays.updateAddress io lease
      { l with out := l.out ++ leaseLines lease, dhcpLease := some lease }
    exact ⟨h₁, h₂, h₃⟩

theorem Stays.renewed (io : Io) (x : Option Lease) (l : Link) : l.Stays (l.renewed io x) := by
  cases x with
  | none => exact .failWith _ _ l
  | some lease =>
    obtain ⟨h₁, h₂, h₃⟩ := Stays.updateAddress io lease
      { l with dhcp4Configured := false, dhcpLease := some lease }
    exact ⟨h₁, h₂, h₃⟩

theorem Stays.notified (io : Io) (e : ClientEvent) (x : Option Lease) (l : Link) :
    l.Stays (l.notified io e x) := by
  unfold Link.notified
  split
  · exact .refl l
  cases e with
  | stop => exact .lost io l
  | expired => exact .lost io l
  | ipChange => exact (Stays.lost io l).trans (.acquired io x _)
  | ipAcquire => exact .acquired io x l
  | renew => exact .renewed io x l
  | error r => exact ⟨rfl, rfl, .inl rfl⟩

theorem Stays.failOn (f : Failure) (r : Int) (l : Link) : l.Stays (l.failOn f r) := by
  unfold Link.failOn
  split
  · exact .failWith f r l
  · exact .refl l

theorem Stays.replied {io : Io} {r : Int} {q : Request} {l l' : Link}
    (h : l.replied io r q = .ok l') : l.Stays l' := by
  cases q with
  | newAddr a =>
    obtain ⟨lease, qs, m, -, -, hn, hm, -⟩ := setDhcpRoutes_ok h
    have hreq : (l.failOn .setAddress r).Stays ((l.failOn .setAddress r).requestRoutes qs) :=
      ⟨rfl, rfl, .inl rfl⟩
    have hm' : l.Stays m := ((Stays.failOn .setAddress r l).trans hreq).trans (.noted hn)
    obtain rfl | rfl := hm
    · exact hm'
    · exact hm'.trans (.fail m)
  | newRoute route =>
    simp only [Link.replied] at h
    split at h
    · cases h
    next n _ =>
    obtain ⟨h₁, h₂, h₃⟩ := Stays.failOn .setRoute r { l with dhcp4Messages := n }
    refine Stays.trans ⟨h₁, h₂, h₃⟩ ?_
    split at h
    · obtain ⟨h₁, h₂, h₃⟩ := Stays.checkReady h
      exact ⟨h₁, h₂, h₃⟩
    · cases h
      exact .refl _
  | delRoute route => cases h; exact .noted (note_noted ..)
  | delAddr a => cases h; exact .noted (note_noted ..)
  | setLink => cases h; exact .noted (note_noted ..)

end Link

theorem Remade.stays {io : Nat → Io} {m : LinkMessage} {s : Iface} {l : Link}
    (h : Remade io m s l) : s.userdata.readded.Stays l := by
  cases h with
  | same => exact .refl _
  | idle _ => exact ⟨rfl, rfl, .inl rfl⟩
  | restarted _ _ hn =>
    obtain ⟨h₁, h₂, h₃⟩ :=
      (Link.Stays.stopped (io 1) { s.userdata.readded with mac := _ }).trans (.noted hn)
    exact ⟨h₁, h₂, h₃⟩

theorem Gained.stays {io : Io} {l l' : Link} (h : Gained io l l') : l.Stays l' := by
  have hlog : l.Stays (l.log .acquiringLease) := ⟨rfl, rfl, .inl rfl⟩
  cases h with
  | ignored _ => exact .refl l
  | started _ hn => exact hlog.trans (.noted hn)
  | failed _ hn _ => exact (hlog.trans (.noted hn)).trans (.fail _)

/-- No event but the removal and the announcement of the link takes it elsewhere. -/
theorem Effect.stays {io : Nat → Io} {s : Iface} {e : Event} {l : Link} (h : Effect io s e l) :
    e = .delLink ∧ l = s.userdata.dropped ∨ (∃ m, e = .newLink m) ∧
      s.userdata.readded.Stays l ∨ (∀ m, e ≠ .newLink m) ∧ s.userdata.Stays l := by
  have hset (l : Link) (c : Bool) : l.Stays { l with carrier := c } := ⟨rfl, rfl, .inl rfl⟩
  cases h with
  | carrierSame hl _ => exact .inr (.inl ⟨⟨_, rfl⟩, hl.stays.trans (hset _ _)⟩)
  | carrierGained hl _ _ hg =>
    obtain ⟨h₁, h₂, h₃⟩ := hg.stays
    exact .inr (.inl ⟨⟨_, rfl⟩, hl.stays.trans ⟨h₁, h₂, h₃⟩⟩)
  | @carrierLost m l hl _ _ =>
    obtain ⟨h₁, h₂, h₃⟩ :=
      Link.Stays.stopped (io 0) (Link.log .lostCarrier { l with carrier := m.carrier })
    exact .inr (.inl ⟨⟨_, rfl⟩, hl.stays.trans ⟨h₁, h₂, h₃⟩⟩)
  | delLink => exact .inl ⟨rfl, rfl⟩
  | newAddr h =>
    obtain ⟨_, _, rfl | ⟨hs, rfl⟩⟩ := Link.newAddr_frame h
    · exact .inr (.inr ⟨nofun, rfl, rfl, .inl rfl⟩)
    · exact .inr (.inr ⟨nofun, rfl, rfl, .inr (.inr ⟨hs, rfl⟩)⟩)
  | delAddr h =>
    obtain ⟨_, _, rfl | ⟨hs, rfl⟩⟩ := Link.delAddr_frame h
    · exact .inr (.inr ⟨nofun, rfl, rfl, .inl rfl⟩)
    · exact .inr (.inr ⟨nofun, rfl, rfl, .inr (.inr ⟨hs, rfl⟩)⟩)
  | reply _ h =>
    obtain ⟨h₁, h₂, h₃⟩ := Link.Stays.replied h
    exact .inr (.inr ⟨nofun, h₁, h₂, h₃⟩)
  | ignored hn => exact .inr (.inr ⟨nofun, .noted hn⟩)
  | acknowledged _ _ hn _ =>
    exact .inr (.inr ⟨nofun, (Link.Stays.noted hn).trans (.notified ..)⟩)
  | resend hn => exact .inr (.inr ⟨nofun, .noted hn⟩)
  | t1 hn => exact .inr (.inr ⟨nofun, .noted hn⟩)
  | t2 hn => exact .inr (.inr ⟨nofun, .noted hn⟩)
  | expire hn => exact .inr (.inr ⟨nofun, (Link.Stays.stopped (io 0) _).trans (.noted hn)⟩)

/-- The rule for invariants of the link: a new link has it, every effect of an event keeps it,
and it does not depend on what has just been requested and logged. -/
theorem LinkStep.keeps {P : Link → Prop} {o o' : Option Iface} {c : Occurrence}
    (h : LinkStep o c o') (hclear : ∀ l : Link, P l → P { l with sent := [], out := [] })
    (hnew : ∀ m l, Added m l → P l)
    (heff : ∀ s l, o = some s → Effect c.io s c.event l → P l) :
    ∀ t, o' = some t → P t.userdata := by
  cases h with
  | @handle io e t h =>
  intro t' ht'
  have hP : P t.userdata := by
    cases o with
    | none =>
      obtain ⟨m, _, t', -, -, ht, ha⟩ := handleEvent_none h
      cases ht
      exact hnew m _ ha
    | some s => exact heff s _ rfl (handle_effect h)
  unfold Attached.settle at ht'
  split at ht'
  · cases ht'
  · cases ht'
    exact hclear _ hP

end CarFi.Roamingd

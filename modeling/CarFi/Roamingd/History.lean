import CarFi.Roamingd.Periods

/-!
# The history of an interface

The carrier periods of an interface, each with the leases that were acquired in it. A run keeps
the history in step with the link: a period is open exactly while there is a carrier.
-/
namespace CarFi.Roamingd

open Library Attached Analyzer

/-- The leases of the period that is open, and those of the periods that are finished. Only
periods in which DHCP was started count. -/
structure History where
  current : Option (List Lease) := none
  finished : List (List Lease) := []

def History.next (h : History) (o : Option Iface) (c : Occurrence) : History :=
  if startsDhcp c.io o c.event then { h with current := some [] }
  else
    match acquires (c.io 0) o c.event with
    | some lease => { h with current := h.current.map (· ++ [lease]) }
    | none =>
      if losesCarrier o c.event then
        { current := none, finished := h.finished ++ h.current.toList }
      else h

/-- A carrier starts DHCP, a link is removed only without a carrier, and in one period at most
one lease with a gateway is acquired. -/
structure Orderly (h : History) (o : Option Iface) (c : Occurrence) : Prop where
  started : gainsCarrier o c.event = true → startsDhcp c.io o c.event = true
  removed : c.event = .delLink → ∀ s, o = some s → s.userdata.carrier = false
  once : ∀ lease, acquires (c.io 0) o c.event = some lease → lease.router ≠ 0 →
    ∀ old ∈ h.current.getD [], old.router = 0

/-! ## A client without a carrier -/

/-- The client waits for nothing, and has no lease. -/
structure DhcpClient.Dormant (c : DhcpClient) : Prop extends c.Idle, c.Bare

theorem sdDhcpClientStop_dormant {υ : Type} {cb : ClientEvent → Attached υ → Attached υ}
    (s : Attached υ) : (sdDhcpClientStop cb s).client.Dormant :=
  ⟨⟨by simp [DhcpClient.IsRunning, sdDhcpClientStop], rfl, rfl⟩,
    by simp [DhcpClient.Holds, sdDhcpClientStop], rfl, rfl, rfl⟩

theorem enterFailed_dormant {s : Iface} (h : s.client.Dormant) : s.enterFailed.client.Dormant := by
  unfold enterFailed
  split
  · exact h
  · exact sdDhcpClientStop_dormant _

theorem failWith_dormant {f : Failure} {r : Int} {s : Iface} (h : s.client.Dormant) :
    (failWith f r s).client.Dormant := by
  unfold failWith
  exact enterFailed_dormant h

theorem setDhcpRoutes_dormant {io : Io} {s t : Iface} (ht : setDhcpRoutes io s = .ok t)
    (h : s.client.Dormant) : t.client.Dormant := by
  unfold setDhcpRoutes at ht
  split at ht
  · cases ht
  dsimp only at ht
  split at ht
  · cases ht
    exact h
  split at ht
  · cases ht
    exact h
  split at ht <;> cases ht
  · exact failWith_dormant h
  · exact h

theorem handleReply_dormant {io : Io} {r : Int} {q : Request} {s t : Iface}
    (ht : s.handleReply io r q = .ok t) (h : s.client.Dormant) : t.client.Dormant := by
  have hnote (f : Failure) (r x : Int) : (noteFailure f r x s).client.Dormant := by
    unfold noteFailure
    repeat' split
    all_goals exact h
  cases q with
  | newAddr a =>
    refine setDhcpRoutes_dormant ht ?_
    split
    · exact failWith_dormant h
    · exact h
  | newRoute route =>
    simp only [handleReply, routeHandler] at ht
    split at ht
    · cases ht
    by_cases he : isError r eexist <;> simp only [he, if_true, if_false, Bool.false_eq_true] at ht
    · split at ht
      · rw [map_ok_client ht]
        exact failWith_dormant h
      · cases ht
        exact failWith_dormant h
    · split at ht
      · rw [map_ok_client ht]
        exact h
      · cases ht
        exact h
  | delRoute route => cases ht; exact hnote ..
  | delAddr a => cases ht; exact hnote ..
  | setLink => cases ht; exact hnote ..

theorem Gained.carrier {io : Io} {l l' : Link} (h : Gained io l l') : l'.carrier = l.carrier := by
  cases h with
  | ignored _ => rfl
  | started _ hn =>
    obtain ⟨fs, rfl⟩ := hn
    rfl
  | failed _ hn _ =>
    obtain ⟨fs, rfl⟩ := hn
    unfold Link.fail
    split <;> rfl

theorem Effect.carrier_newLink {io : Nat → Io} {s : Iface} {m : LinkMessage} {l : Link}
    (h : Effect io s (.newLink m) l) : l.carrier = m.carrier := by
  cases h with
  | carrierSame _ _ => rfl
  | carrierGained _ _ _ hg => exact hg.carrier
  | carrierLost _ _ _ => exact stopped_carrier (.refl _)

theorem linkUpdate_dormant {io : Nat → Io} {m : LinkMessage} {s : Iface}
    (hs : s.userdata.carrier = false → s.client.Dormant) (hm : m.carrier = false) :
    (s.linkUpdate io m).client.Dormant := by
  have hre : (if s.userdata.state = .linger then
      s.mapLink fun l => { l.log .linkReadded with state := .enslaving } else s) =
      { s with userdata := s.userdata.readded } := by
    unfold Link.readded
    split <;> rfl
  have hcar := (changeMac_remade io m s).carrier
  have hidle (hr : ¬s.client.IsRunning) :=
    @changeMac_idle io m.mac { s with userdata := s.userdata.readded } hr
  unfold linkUpdate
  simp only [hre]
  generalize changeMac io m.mac { s with userdata := s.userdata.readded } = t at hcar hidle ⊢
  rw [hcar]
  split
  · next hg => simp [hm] at hg
  · split
    · exact sdDhcpClientStop_dormant _
    · next hl =>
      have hd := hs (by simpa [hm] using hl)
      rw [mapLink_client, hidle hd.running]
      exact hd

/-- Without a carrier the client sleeps. -/
theorem handle_dormant {io : Nat → Io} {s t : Iface} {e : Event}
    (h : s.handle io e = some (.ok t)) (hs : s.userdata.carrier = false → s.client.Dormant)
    (ht : t.userdata.carrier = false) : t.client.Dormant := by
  by_cases he : ∃ m, e = .newLink m
  · obtain ⟨m, rfl⟩ := he
    have hm := (handle_effect h).carrier_newLink.symm.trans ht
    cases h
    exact linkUpdate_dormant hs hm
  have heff := handle_effect h
  rw [heff.carrier fun m hm => he ⟨m, hm⟩] at ht
  have hd := hs ht
  cases e with
  | newLink m => exact absurd ⟨m, rfl⟩ he
  | delLink =>
    cases h
    unfold linkDrop
    split <;> exact hd
  | newAddr a ready => rwa [map_ok_client (Option.some.inj h)]
  | delAddr a => rwa [map_ok_client (Option.some.inj h)]
  | reply i r =>
    obtain ⟨q, -, h⟩ := Option.map_eq_some_iff.mp h
    exact handleReply_dormant h hd
  | receive m => simp [Attached.handle, hd.receive] at h
  | resend => simp [Attached.handle, hd.resend] at h
  | t1 => simp [Attached.handle, hd.t1] at h
  | t2 => simp [Attached.handle, hd.t2] at h
  | expire => simp [Attached.handle, hd.expire] at h

theorem enterJoinNetdev_dormant {io : Io} {up : Bool} {p : Int × Iface} {s : Iface}
    (h : enterJoinNetdev io up s = .ok p) (hs : s.client.Dormant) : p.2.client.Dormant := by
  have hmap {t : Iface} (h : ((enterSetRoutes t).map fun s => ((0 : Int), s)) = .ok p)
      (ht : t.client = s.client) : p.2.client.Dormant := by
    cases hr : enterSetRoutes t with
    | error a =>
      rw [hr] at h
      cases h
    | ok u =>
      rw [hr] at h
      cases h
      rwa [enterSetRoutes_client hr, ht]
  unfold enterJoinNetdev at h
  dsimp only at h
  split at h
  · exact hmap h rfl
  split at h
  · cases h
    exact failWith_dormant hs
  · exact hmap h rfl

theorem linkAdd_dormant {io : Io} {m : LinkMessage} {r : Int} {t : Iface}
    (h : linkAdd io m = .ok (r, t)) (hc : m.carrier = false) : t.client.Dormant := by
  have hnew : ((linkNew m).logLink .upToDate).client.Dormant := by
    refine ⟨⟨?_, rfl, rfl⟩, ?_, rfl, rfl, rfl⟩
    · simp [DhcpClient.IsRunning, linkNew, logLink]
    · simp [DhcpClient.Holds, linkNew, logLink]
  unfold linkAdd at h
  dsimp only at h
  split at h
  swap
  · cases h
    exact hnew
  have hconf {r : Int} {s : Iface}
      (hs : configure io m.up ((linkNew m).logLink .upToDate) = .ok (r, s)) : s.client.Dormant := by
    have hcar : ((linkNew m).logLink .upToDate).userdata.carrier = false :=
      (linkNew_fresh m).1.carrier.trans hc
    unfold configure at hs
    rw [hcar] at hs
    split at hs
    · cases hs
      exact hnew
    · exact enterJoinNetdev_dormant hs hnew
  split at h
  · cases h
  next hs =>
  split at h <;> cases h
  · exact enterFailed_dormant (hconf hs)
  · exact hconf hs

/-! ## Steps -/

/-- The link and the history are in step when the event loop has them. -/
structure Wired (s : Iface) (h : History) : Prop where
  out : s.userdata.out = []
  carrier : s.userdata.carrier = true ↔ h.current ≠ none
  dormant : s.userdata.carrier = false → s.client.Dormant
  linger : s.userdata.state = .linger → s.userdata.carrier = false

/-- The same for a link that may not exist. -/
def WiredIn : Option Iface → History → Prop
  | none, h => h.current = none
  | some s, h => Wired s h

/-- Announcements apart, only a lease that is acquired goes into the history. -/
theorem History.next_current {h : History} {s : Iface} {c : Occurrence}
    (he : ∀ m, c.event ≠ .newLink m) :
    (h.next (some s) c).current = none ↔ h.current = none := by
  obtain ⟨io, e, sent, out⟩ := c
  cases e with
  | newLink m => exact absurd rfl (he m)
  | receive m =>
    simp only [next, startsDhcp, acquires, losesCarrier, Bool.false_eq_true, if_false]
    cases messageTaken (io 0) s m <;> simp
  | _ => simp [next, startsDhcp, acquires, losesCarrier]

theorem History.next_newLink {h : History} {s : Iface} {c : Occurrence} {m : LinkMessage}
    (hm : c.event = .newLink m) (ho : Orderly h (some s) c)
    (hs : s.userdata.carrier = true ↔ h.current ≠ none) :
    m.carrier = true ↔ (h.next (some s) c).current ≠ none := by
  obtain ⟨io, e, sent, out⟩ := c
  obtain rfl := hm
  have hstart := ho.started
  simp only [gainsCarrier] at hstart
  cases hc : s.userdata.carrier <;> cases hm : m.carrier
  · have hcur : h.current = none := by simpa [hc] using hs
    simp [next, startsDhcp, acquires, losesCarrier, hc, hm, hcur]
  · simp [next, hstart (by simp [hc, hm])]
  · simp [next, startsDhcp, acquires, losesCarrier, hc, hm]
  · have hcur : h.current ≠ none := by simpa [hc] using hs
    simp [next, startsDhcp, acquires, losesCarrier, hc, hm, hcur]

theorem Wired.settle {t : Iface} {h : History}
    (hc : t.userdata.carrier = true ↔ h.current ≠ none)
    (hd : t.userdata.carrier = false → t.client.Dormant)
    (hl : t.userdata.state = .linger → t.userdata.carrier = false) : WiredIn t.settle h := by
  unfold Attached.settle
  split
  · next hlinger =>
    have hcar := hl hlinger.1
    simpa [WiredIn, hcar] using hc
  · exact ⟨rfl, hc, hd, hl⟩

theorem WiredIn.step {o o' : Option Iface} {h : History} {c : Occurrence} (hw : WiredIn o h)
    (ho : Orderly h o c) (hstep : LinkStep o c o') : WiredIn o' (h.next o c) := by
  cases hstep with
  | @handle io e t ht =>
  cases o with
  | none =>
    obtain ⟨m, r, t', rfl, hadd, heq, ha⟩ := handleEvent_none ht
    cases heq
    have hcar := ha.fresh.carrier
    refine Wired.settle ?_ ?_ ?_
    · rw [hcar]
      have hstart := ho.started
      simp only [gainsCarrier] at hstart
      cases hm : m.carrier with
      | true => simp [History.next, hstart hm]
      | false =>
        have hcur : h.current = none := hw
        simp [History.next, startsDhcp, acquires, losesCarrier, hm, hcur]
    · rw [hcar]
      exact linkAdd_dormant hadd
    · intro hl
      cases ha with
      | unmanaged _ _ hs _ => simp [hs] at hl
      | failed _ _ hs _ => simp [hs] at hl
      | settingRoutes _ _ hs _ => simp [hs] at hl
  | some s =>
    have heff := handle_effect ht
    have hw : Wired s h := hw
    have hdorm := handle_dormant ht hw.dormant
    by_cases he : ∃ m, e = .newLink m
    · obtain ⟨m, rfl⟩ := he
      refine Wired.settle ?_ hdorm ?_
      · rw [heff.carrier_newLink]
        exact History.next_newLink rfl ho hw.carrier
      · obtain ⟨he, -⟩ | ⟨-, hst⟩ | ⟨hne, -⟩ := heff.stays
        · cases he
        · have hre : s.userdata.readded.state ≠ .linger := by
            unfold Link.readded
            split
            · simp
            · next hl => exact hl
          intro hl
          obtain hst | hst | ⟨-, hst⟩ := hst.state
          · exact absurd (hst.symm.trans hl) hre
          · simp [hst] at hl
          · simp [hst] at hl
        · exact absurd rfl (hne m)
    · have he : ∀ m, e ≠ .newLink m := fun m hm => he ⟨m, hm⟩
      have hcar := heff.carrier he
      refine Wired.settle ?_ hdorm ?_
      · rw [hcar, hw.carrier, not_iff_not, History.next_current he]
      · rw [hcar]
        intro hl
        obtain ⟨hdel, -⟩ | ⟨⟨m, hm⟩, -⟩ | ⟨-, hst⟩ := heff.stays
        · exact ho.removed hdel s rfl
        · exact absurd hm (he m)
        · obtain hst | hst | ⟨-, hst⟩ := hst.state
          · exact hw.linger (hst.symm.trans hl)
          · simp [hst] at hl
          · simp [hst] at hl

end CarFi.Roamingd

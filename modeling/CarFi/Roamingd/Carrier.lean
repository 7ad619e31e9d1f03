import CarFi.Roamingd.LinkEvents

/-!
# Loss and return of the carrier

When the carrier is lost the link gives up its lease, and when it comes back the client is
started again. Both leave a gap: a link that has failed does neither, and the reply to a route
of a lease that is gone still marks the link as configured.
-/
namespace CarFi.Roamingd

open Library Attached

/-! ## What a link can lose -/

/-- The link gains neither a lease nor the mark that its DHCP configuration is done. -/
structure Link.Wanes (l l' : Link) : Prop where
  lease : l'.dhcpLease = none ∨ l'.dhcpLease = l.dhcpLease
  configured : l'.dhcp4Configured = true → l.dhcp4Configured = true ∧ l'.dhcpLease = l.dhcpLease

/-- A configured link has a lease. -/
def Link.Founded (l : Link) : Prop := l.dhcp4Configured = true → l.dhcpLease ≠ none

namespace Link

theorem Wanes.refl (l : Link) : l.Wanes l := ⟨.inr rfl, fun h => ⟨h, rfl⟩⟩

theorem Wanes.trans {l l' l'' : Link} (h : l.Wanes l') (h' : l'.Wanes l'') : l.Wanes l'' := by
  constructor
  · obtain h₂ | h₂ := h'.lease
    · exact .inl h₂
    · rw [h₂]
      exact h.lease
  · intro hc
    obtain ⟨hc', he⟩ := h'.configured hc
    obtain ⟨hc'', he'⟩ := h.configured hc'
    exact ⟨hc'', he.trans he'⟩

theorem Wanes.noted {l l' : Link} (h : l.Noted l') : l.Wanes l' := by
  obtain ⟨fs, rfl⟩ := h
  exact ⟨.inr rfl, fun h => ⟨h, rfl⟩⟩

theorem Wanes.fail (l : Link) : l.Wanes l.fail := by
  obtain ⟨st, o, hf, -⟩ := l.fail_frame
  rw [hf]
  exact ⟨.inr rfl, fun h => ⟨h, rfl⟩⟩

theorem Wanes.failWith (f : Failure) (r : Int) (l : Link) : l.Wanes (l.failWith f r) :=
  ((Noted.refl l).log f r |> Wanes.noted).trans (.fail _)

theorem Wanes.lost (io : Io) (l : Link) : l.Wanes (l.lost io) := by
  unfold Link.lost
  split
  · exact .refl l
  · rw [leaseLost_eq]
    exact ⟨.inl rfl, by simp⟩

theorem Wanes.stopped (io : Io) (l : Link) : l.Wanes (l.stopped io) := by
  unfold Link.stopped
  split
  · exact .refl l
  · exact .lost io l

theorem Wanes.readded (l : Link) : l.Wanes l.readded := by
  unfold Link.readded
  split
  · exact ⟨.inr rfl, fun h => ⟨h, rfl⟩⟩
  · exact .refl l

theorem Founded.wanes {l l' : Link} (h : l.Founded) (hw : l.Wanes l') : l'.Founded := by
  intro hc
  obtain ⟨hc', he⟩ := hw.configured hc
  rw [he]
  exact h hc'

theorem Founded.updateAddress {io : Io} {lease : Lease} {l : Link} (hl : l.dhcpLease ≠ none) :
    (l.updateAddress io lease).Founded := by
  unfold Link.updateAddress
  split
  · obtain ⟨st, o, hf, -⟩ := failWith_frame .updateAddress (io.result .addressConfigure) l
    rw [hf]
    exact fun _ => hl
  · obtain ⟨own, foreign, hf⟩ := addressAdd_frame lease.addr (l.request (.newAddr lease.addr))
    rw [hf]
    exact fun _ => hl

theorem Founded.acquired {io : Io} {x : Option Lease} {l : Link} (h : l.Founded) :
    (l.acquired io x).Founded := by
  cases x with
  | none => exact h.wanes (.failWith _ _ l)
  | some lease => exact .updateAddress (by simp)

theorem Founded.notified {io : Io} {e : ClientEvent} {x : Option Lease} {l : Link}
    (h : l.Founded) : (l.notified io e x).Founded := by
  unfold Link.notified
  split
  · exact h
  cases e with
  | stop => exact h.wanes (.lost io l)
  | expired => exact h.wanes (.lost io l)
  | ipChange => exact (h.wanes (.lost io l)).acquired
  | ipAcquire => exact h.acquired
  | renew =>
    cases x with
    | none => exact h.wanes (.failWith _ _ l)
    | some lease => exact .updateAddress (by simp)
  | error r => exact h

end Link

theorem Remade.wanes {io : Nat → Io} {m : LinkMessage} {s : Iface} {l : Link}
    (h : Remade io m s l) : s.userdata.Wanes l := by
  refine (Link.Wanes.readded _).trans ?_
  cases h with
  | same => exact .refl _
  | idle _ => exact ⟨.inr rfl, fun h => ⟨h, rfl⟩⟩
  | restarted _ _ hn =>
    obtain ⟨h₁, h₂⟩ := (Link.Wanes.stopped (io 1)
      { s.userdata.readded with mac := _ }).trans (.noted hn)
    exact ⟨h₁, h₂⟩

theorem Gained.wanes {io : Io} {l l' : Link} (h : Gained io l l') : l.Wanes l' := by
  have hlog : l.Wanes (l.log .acquiringLease) := ⟨.inr rfl, fun h => ⟨h, rfl⟩⟩
  cases h with
  | ignored _ => exact .refl l
  | started _ hn => exact hlog.trans (.noted hn)
  | failed _ hn _ => exact (hlog.trans (.noted hn)).trans (.fail _)

/-- The client accepts an acknowledgement with a lease. -/
def Acquires (o : Option Iface) (e : Event) : Prop :=
  ∃ s m lease, o = some s ∧ e = .receive m ∧ s.client.accepted m = some lease

/-- The event is the reply to the last route that was requested. -/
def LastRoute (s : Iface) (e : Event) : Prop :=
  ∃ i r route, e = .reply i r ∧ s.userdata.pending[i]? = some (.newRoute route) ∧
    s.userdata.dhcp4Messages = 1

/-- What a reply does to the lease and to the mark: only the last route sets it. -/
theorem replied_wanes {io : Io} {r : Int} {q : Request} {l l' : Link}
    (h : l.replied io r q = .ok l') :
    l.Wanes l' ∨ (∃ route, q = .newRoute route) ∧ l.dhcp4Messages = 1 ∧
      l'.dhcpLease = l.dhcpLease := by
  cases q with
  | newAddr a =>
    left
    obtain ⟨st, o, hf, -⟩ := Link.failOn_frame .setAddress r l
    obtain ⟨lease, qs, m, -, -, hn, hm, -⟩ := Link.setDhcpRoutes_ok h
    have hm' : l.Wanes m := by
      rw [hf] at hn
      obtain ⟨fs, rfl⟩ := hn
      exact ⟨.inr rfl, fun h => ⟨h, rfl⟩⟩
    obtain rfl | rfl := hm
    · exact hm'
    · exact hm'.trans (.fail m)
  | newRoute route =>
    simp only [Link.replied] at h
    split at h
    · cases h
    next n hn =>
    obtain ⟨st, o, hf, -⟩ := Link.failOn_frame .setRoute r { l with dhcp4Messages := n }
    rw [hf] at h
    split at h
    · next h0 =>
      refine .inr ⟨⟨route, rfl⟩, by rw [hn, h0], ?_⟩
      obtain rfl | ⟨-, rfl⟩ := Link.checkReady_frame h <;> rfl
    · cases h
      exact .inl ⟨.inr rfl, fun h => ⟨h, rfl⟩⟩
  | delRoute route => cases h; exact .inl (.noted (Link.note_noted ..))
  | delAddr a => cases h; exact .inl (.noted (Link.note_noted ..))
  | setLink => cases h; exact .inl (.noted (Link.note_noted ..))

/-- Only an acknowledgement brings a lease, and only the last route sets the mark. -/
theorem Effect.wanes {io : Nat → Io} {s : Iface} {e : Event} {l : Link} (h : Effect io s e l) :
    s.userdata.Wanes l ∨ Acquires (some s) e ∧ (s.userdata.Founded → l.Founded) ∨
      LastRoute s e ∧ l.dhcpLease = s.userdata.dhcpLease := by
  have hkeep {l l' : Link} (h : l'.dhcpLease = l.dhcpLease)
      (h' : l'.dhcp4Configured = l.dhcp4Configured) : l.Wanes l' :=
    ⟨.inr h, fun hc => ⟨h' ▸ hc, h⟩⟩
  cases h with
  | carrierSame hl _ => exact .inl (hl.wanes.trans (hkeep rfl rfl))
  | carrierGained hl _ _ hg =>
    obtain ⟨h₁, h₂⟩ := hg.wanes
    exact .inl (hl.wanes.trans ⟨h₁, h₂⟩)
  | @carrierLost m l hl _ _ =>
    obtain ⟨h₁, h₂⟩ :=
      Link.Wanes.stopped (io 0) (Link.log .lostCarrier { l with carrier := m.carrier })
    exact .inl (hl.wanes.trans ⟨h₁, h₂⟩)
  | delLink =>
    left
    unfold Link.dropped
    split
    · exact .refl _
    · exact hkeep rfl rfl
  | newAddr h =>
    obtain ⟨_, _, rfl | ⟨-, rfl⟩⟩ := Link.newAddr_frame h <;> exact .inl (hkeep rfl rfl)
  | delAddr h =>
    obtain ⟨_, _, rfl | ⟨-, rfl⟩⟩ := Link.delAddr_frame h <;> exact .inl (hkeep rfl rfl)
  | @reply i r q _ hq h =>
    obtain ⟨h₁, h₂⟩ | ⟨⟨route, rfl⟩, hm, hl⟩ := replied_wanes h
    · exact .inl ⟨h₁, h₂⟩
    · exact .inr (.inr ⟨⟨i, r, route, rfl, hq, hm⟩, hl⟩)
  | ignored hn => exact .inl (.noted hn)
  | acknowledged ha _ hn _ =>
    exact .inr (.inl ⟨⟨_, _, _, rfl, rfl, ha⟩, fun hs => (hs.wanes (.noted hn)).notified⟩)
  | resend hn => exact .inl (.noted hn)
  | t1 hn => exact .inl (.noted hn)
  | t2 hn => exact .inl (.noted hn)
  | expire hn => exact .inl ((Link.Wanes.stopped (io 0) _).trans (.noted hn))

/-! ## After the loss of the carrier -/

/-- No reply to a last route is handled when the lease is gone. -/
def RoutesInTime (o : Option Iface) (c : Occurrence) : Prop :=
  ∀ s, o = some s → LastRoute s c.event → s.userdata.dhcpLease ≠ none

/-- The event takes the carrier. -/
def LosesCarrier (s : Iface) (e : Event) : Prop :=
  ∃ m, e = .newLink m ∧ s.userdata.carrier = true ∧ m.carrier = false

/-- A step that brings no lease, and no route too late. -/
def Uneventful (o : Option Iface) (c : Occurrence) : Prop :=
  RoutesInTime o c ∧ ¬Acquires o c.event

theorem Effect.founded {s : Iface} {c : Occurrence} {l : Link} (h : Effect c.io s c.event l)
    (hs : s.userdata.Founded) (hg : RoutesInTime (some s) c) : l.Founded := by
  obtain hw | ⟨-, hf⟩ | ⟨hr, hl⟩ := h.wanes
  · exact hs.wanes hw
  · exact hf hs
  · intro _
    rw [hl]
    exact hg s rfl hr

theorem LinkStep.founded {o o' : Option Iface} {c : Occurrence} (h : LinkStep o c o')
    (hg : RoutesInTime o c) (ho : ∀ s, o = some s → s.userdata.Founded) :
    ∀ t, o' = some t → t.userdata.Founded := by
  refine h.keeps (fun l hl => hl) ?_ ?_
  · intro m l ha hc
    simp [ha.fresh.unconfigured] at hc
  · intro s l hs heff
    subst hs
    exact heff.founded (ho s rfl) hg

/-- The lease is gone once the loss has been handled, unless the link has failed. -/
theorem Effect.lease_none {io : Nat → Io} {s : Iface} {e : Event} {l : Link}
    (h : Effect io s e l) (hloss : LosesCarrier s e)
    (hf : s.userdata.state = .failed → s.userdata.dhcpLease = none) : l.dhcpLease = none := by
  obtain ⟨m, rfl, hc, hm⟩ := hloss
  cases h with
  | carrierSame _ h =>
    rw [h, hc] at hm
    cases hm
  | carrierGained _ h _ _ =>
    rw [h] at hc
    cases hc
  | @carrierLost _ l hl _ _ =>
    by_cases hd : l.state.isDown
    · -- a link that was removed has been taken up again, so it is the failed one
      have hst : s.userdata.state = .failed := by
        rw [hl.state_eq] at hd
        unfold Link.readded at hd
        split at hd
        · cases hd
        · next hling => simpa [LinkState.isDown, hling] using hd
      have hs := hf hst
      have hl' : l.dhcpLease = none := hl.wanes.lease.elim id fun h => h.trans hs
      simpa [Link.stopped, Link.log, hd] using hl'
    · rw [Link.stopped, if_neg (by simpa [Link.log] using hd)]
      exact Link.lost_dhcpLease (io 0) _

/-- From the loss of the carrier up to the next acknowledgement the link has no lease and is not
configured, if no reply to a last route is handled without a lease and the loss does not find the
link failed with a lease. -/
theorem bare_after_loss {os₁ os₂ : List Occurrence} {s t : Iface} {o : Option Iface}
    {c : Occurrence} (h₁ : Run (Guarded RoutesInTime LinkStep) none os₁ (some s))
    (hc : LinkStep (some s) c o) (hloss : LosesCarrier s c.event)
    (hf : s.userdata.state = .failed → s.userdata.dhcpLease = none)
    (h₂ : Run (Guarded Uneventful LinkStep) o os₂ (some t)) :
    t.userdata.dhcpLease = none ∧ t.userdata.dhcp4Configured = false := by
  have hs : ∀ s', some s = some s' → s'.userdata.Founded :=
    Run.invariant (I := fun o => ∀ s, o = some s → s.userdata.Founded)
      (fun _ _ _ ho h => h.2.founded h.1 ho) h₁ (by simp)
  have hg : RoutesInTime (some s) c := by
    obtain ⟨m, he, -, -⟩ := hloss
    rintro _ _ ⟨i, r, route, he', -⟩
    rw [he] at he'
    cases he'
  -- what holds right after the loss is kept by every later step
  let I (o : Option Iface) : Prop :=
    ∀ s, o = some s → s.userdata.Founded ∧ s.userdata.dhcpLease = none
  have h0 : I o := by
    intro s' hs'
    refine ⟨hc.founded hg hs s' hs', ?_⟩
    refine hc.keeps (P := fun l => l.dhcpLease = none) (fun l hl => hl)
      (fun m l ha => ha.fresh.lease) ?_ s' hs'
    intro s'' l hs'' heff
    cases hs''
    exact heff.lease_none hloss hf
  have hstep (o : Option Iface) (c : Occurrence) (o' : Option Iface) (ho : I o)
      (h : Guarded Uneventful LinkStep o c o') : I o' := by
    intro s' hs'
    refine ⟨h.2.founded h.1.1 (fun s hs => (ho s hs).1) s' hs', ?_⟩
    refine h.2.keeps (P := fun l => l.dhcpLease = none) (fun l hl => hl)
      (fun m l ha => ha.fresh.lease) ?_ s' hs'
    intro s'' l hs'' heff
    obtain hw | ⟨ha, -⟩ | ⟨-, hl⟩ := heff.wanes
    · exact hw.lease.elim id fun h => h.trans (ho s'' hs'').2
    · exact absurd (hs'' ▸ ha) h.1.2
    · exact hl.trans (ho s'' hs'').2
  obtain ⟨hfound, hnone⟩ := h₂.invariant hstep h0 t rfl
  refine ⟨hnone, ?_⟩
  by_contra hconf
  exact hfound (by simpa using hconf) hnone

/-- The carrier goes away. -/
def carrierLoss : Event := .newLink { carrier := false, mac := some 1 }

theorem losesCarrier_carrierLoss {s : Iface} (h : s.userdata.carrier = true) :
    LosesCarrier s carrierLoss :=
  ⟨_, rfl, h, rfl⟩

/-- The carrier is lost with a lease and the reply to its address outstanding. -/
theorem bare_after_loss_acquisition :
    ∃ os s c t, Run (Guarded RoutesInTime LinkStep) none os (some s) ∧
      s.userdata.dhcpLease ≠ none ∧ LinkStep (some s) c (some t) ∧ LosesCarrier s c.event ∧
      t.userdata.dhcpLease = none ∧ t.userdata.dhcp4Configured = false := by
  have hex : (execute none (acquisition sampleOptions)).any (fun (_, o) => o.any fun s =>
      s.userdata.carrier && s.userdata.dhcpLease.isSome && s.userdata.state = .settingRoutes &&
        (resultOf (handleEvent (fun _ => quietIo 1300000) (some s) carrierLoss)).any fun t =>
          t.settle.isSome) := by decide +kernel
  obtain ⟨⟨os, o⟩, ho, hs⟩ := (Option.any_eq_true _ _).mp hex
  have hrun := @execute_run RoutesInTime _ _ _ _ ho (by
    rintro p hp s sent out _ _ ⟨i, r, route, he, -⟩
    simp only [acquisition, List.mem_cons, List.not_mem_nil, or_false] at hp
    obtain rfl | rfl | rfl | rfl | rfl := hp <;> cases he)
  obtain ⟨s, rfl, hp⟩ := (Option.any_eq_true _ _).mp hs
  simp only [Bool.and_eq_true, decide_eq_true_eq] at hp
  obtain ⟨⟨⟨hcar, hlease⟩, hstate⟩, hres⟩ := hp
  obtain ⟨u, hu, hsome⟩ := (Option.any_eq_true _ _).mp hres
  obtain ⟨t, ht⟩ := Option.isSome_iff_exists.mp hsome
  have hstep := LinkStep.handle (eq_of_resultOf hu)
  rw [ht] at hstep
  have hloss := losesCarrier_carrierLoss hcar
  exact ⟨os, s, _, t, hrun, Option.isSome_iff_ne_none.mp hlease, hstep, hloss,
    bare_after_loss hrun hstep hloss (by simp [hstate]) (.nil _)⟩

/-- Two losses that leave something behind: of a link that failed because its address was refused,
and of a link to which the kernel still confirms the routes of the lease. -/
theorem loss_leaves_lease_or_mark :
    (∃ os s c t, Run LinkStep none os (some s) ∧ LinkStep (some s) c (some t) ∧
      LosesCarrier s c.event ∧ t.userdata.managed = true ∧ t.userdata.dhcpLease ≠ none) ∧
    ∃ os s c o os' t, Run LinkStep none os (some s) ∧ LinkStep (some s) c o ∧
      LosesCarrier s c.event ∧
      Run (Guarded (fun o c => ¬Acquires o c.event) LinkStep) o os' (some t) ∧
      t.userdata.managed = true ∧ t.userdata.dhcp4Configured = true := by
  constructor
  · have hex : (execute none (acquisition sampleOptions ++ [(1300000, .reply 0 (-13))])).any
        (fun (_, o) => o.any fun s => s.userdata.carrier &&
          (resultOf (handleEvent (fun _ => quietIo 1400000) (some s) carrierLoss)).any fun u =>
            u.settle.any fun t => t.userdata.managed && t.userdata.dhcpLease.isSome) := by
      decide +kernel
    obtain ⟨os, o, hrun, ho⟩ := execute_reaches hex
    obtain ⟨s, rfl, hp⟩ := (Option.any_eq_true _ _).mp ho
    simp only [Bool.and_eq_true] at hp
    obtain ⟨u, hu, hsettle⟩ := (Option.any_eq_true _ _).mp hp.2
    obtain ⟨t, ht, hres⟩ := (Option.any_eq_true _ _).mp hsettle
    simp only [Bool.and_eq_true] at hres
    have hstep := LinkStep.handle (eq_of_resultOf hu)
    rw [ht] at hstep
    exact ⟨os, s, _, t, hrun, hstep, losesCarrier_carrierLoss hp.1, hres.1,
      Option.isSome_iff_ne_none.mp hres.2⟩
  · have hex : (execute none (acquisition sampleOptions ++ [(1300000, .reply 0 0)])).any
        (fun (_, o) => o.any fun s => s.userdata.carrier &&
          (resultOf (handleEvent (fun _ => quietIo 1400000) (some s) carrierLoss)).any fun u =>
            (execute u.settle [(1500000, .reply 0 0), (1500000, .reply 0 0)]).any fun (_, o) =>
              o.any fun t => t.userdata.managed && t.userdata.dhcp4Configured) := by
      decide +kernel
    obtain ⟨os, o, hrun, ho⟩ := execute_reaches hex
    obtain ⟨s, rfl, hp⟩ := (Option.any_eq_true _ _).mp ho
    simp only [Bool.and_eq_true] at hp
    obtain ⟨u, hu, hlater⟩ := (Option.any_eq_true _ _).mp hp.2
    obtain ⟨⟨os', o⟩, hexec, ho⟩ := (Option.any_eq_true _ _).mp hlater
    obtain ⟨t, rfl, hres⟩ := (Option.any_eq_true _ _).mp ho
    simp only [Bool.and_eq_true] at hres
    have hrun' := @execute_run (fun o c => ¬Acquires o c.event) _ _ _ _ hexec (by
      rintro p hp o sent out ⟨_, m, _, -, he, -⟩
      simp only [List.mem_cons, List.not_mem_nil, or_false] at hp
      obtain rfl | rfl := hp <;> cases he)
    exact ⟨os, s, _, _, os', t, hrun, .handle (eq_of_resultOf hu), losesCarrier_carrierLoss hp.1,
      hrun', hres⟩

/-! ## The return of the carrier -/

/-- The event brings the carrier back. -/
def GainsCarrier (s : Iface) (e : Event) : Prop :=
  ∃ m, e = .newLink m ∧ s.userdata.carrier = false ∧ m.carrier = true

/-- A managed link has been configured, or the attempt has failed. -/
def Link.Launched (l : Link) : Prop :=
  l.managed = true → l.state ≠ .pending ∧ l.state ≠ .unmanaged

theorem Link.Launched.stays {l l' : Link} (h : l.Launched) (hs : l.Stays l') : l'.Launched := by
  intro hm
  have hl := h (hs.managed ▸ hm)
  obtain he | he | ⟨-, he⟩ := hs.state
  · rwa [he]
  · simp [he]
  · simp [he]

theorem launched_of_run {os : List Occurrence} {o : Option Iface} (h : Run LinkStep none os o) :
    ∀ s, o = some s → s.userdata.Launched := by
  refine Run.invariant (I := fun o => ∀ s, o = some s → s.userdata.Launched) ?_ h (by simp)
  intro o c o' ho hstep
  refine hstep.keeps (fun l hl => hl) ?_ fun s l hs heff => ?_
  · intro m l ha hm
    cases ha with
    | unmanaged hm' hf _ _ => simp [hf.managed, hm'] at hm
    | failed _ _ hs _ => simp [hs]
    | settingRoutes _ _ hs _ => simp [hs]
  · have hs := ho s hs
    obtain ⟨-, rfl⟩ | ⟨-, hst⟩ | ⟨-, hst⟩ := heff.stays
    · unfold Link.dropped
      split
      · exact hs
      · exact fun _ => by simp
    · refine Link.Launched.stays ?_ hst
      unfold Link.readded
      split
      · exact fun _ => by simp
      · exact hs
    · exact hs.stays hst

/-- The event loop finds nothing new in the log. -/
theorem out_of_run {os : List Occurrence} {o : Option Iface} (h : Run LinkStep none os o) :
    ∀ s, o = some s → s.userdata.out = [] := by
  refine Run.invariant (I := fun o => ∀ s, o = some s → s.userdata.out = []) ?_ h (by simp)
  rintro o c o' - ⟨h⟩ s hs
  unfold Attached.settle at hs
  split at hs
  · cases hs
  · cases hs
    rfl

theorem Remade.not_acquiring {io : Nat → Io} {m : LinkMessage} {s : Iface} {l : Link}
    (h : Remade io m s l) (hs : s.userdata.out = []) : .acquiringLease ∉ l.out := by
  have hr : .acquiringLease ∉ s.userdata.readded.out := by
    unfold Link.readded
    split <;> simp [Link.log, hs]
  cases h with
  | same => exact hr
  | idle _ => exact hr
  | @restarted mac _ _ _ hn =>
    obtain ⟨fs, rfl⟩ := hn
    have hst : .acquiringLease ∉
        (Link.stopped (io 1) { s.userdata.readded with mac := mac }).out := by
      unfold Link.stopped Link.lost
      split
      · exact hr
      split
      · exact hr
      · simpa [Link.leaseLost_eq, Link.requestAll, Link.log] using hr
    simpa using hst

theorem Gained.acquiring_iff {io : Io} {l l' : Link} (h : Gained io l l')
    (hl : .acquiringLease ∉ l.out) : .acquiringLease ∈ l'.out ↔
      ¬(l.state = .pending ∨ l.state = .unmanaged ∨ l.state = .failed) := by
  cases h with
  | ignored hs => exact iff_of_false hl fun h => h hs
  | started hs hn =>
    obtain ⟨fs, rfl⟩ := hn
    exact iff_of_true (by simp [Link.log]) hs
  | failed hs hn _ =>
    obtain ⟨fs, rfl⟩ := hn
    refine iff_of_true ?_ hs
    unfold Link.fail
    split <;> simp [Link.log]

theorem readded_state_iff {l : Link} (h : l.Launched) (hm : l.managed = true) :
    ¬(l.readded.state = .pending ∨ l.readded.state = .unmanaged ∨
      l.readded.state = .failed) ↔ l.state ≠ .failed := by
  unfold Link.readded
  split
  · next hl => simp [hl]
  · simp [h hm]

theorem Effect.acquiring_iff {io : Nat → Io} {s : Iface} {m : LinkMessage} {l : Link}
    (h : Effect io s (.newLink m) l) (hs : s.userdata.carrier = false) (hm : m.carrier = true)
    (hman : s.userdata.managed = true) (hl : s.userdata.Launched) (hout : s.userdata.out = []) :
    .acquiringLease ∈ l.out ↔ s.userdata.state ≠ .failed := by
  cases h with
  | carrierSame _ h =>
    rw [hm, hs] at h
    cases h
  | carrierGained hr _ _ hg =>
    rw [hg.acquiring_iff (by simpa [Link.log] using hr.not_acquiring hout),
      ← readded_state_iff hl hman, ← hr.state_eq]
    rfl
  | carrierLost _ _ h =>
    rw [hm] at h
    cases h

theorem carrierGained_started {io : Io} {s : Iface} (hio : ∀ c, 0 ≤ io.result c)
    (hs : ¬(s.userdata.state = .pending ∨ s.userdata.state = .unmanaged ∨
      s.userdata.state = .failed)) : (carrierGained io s).client.IsStarted := by
  obtain ⟨h0, hst⟩ := acquireConf_started hio s
  simp only [carrierGained, if_neg hs, h0]
  exact hst

theorem linkUpdate_started {io : Nat → Io} {s : Iface} {m : LinkMessage}
    (hio : ∀ c, 0 ≤ (io 0).result c) (hs : s.userdata.carrier = false) (hm : m.carrier = true)
    (hman : s.userdata.managed = true) (hl : s.userdata.Launched)
    (hf : s.userdata.state ≠ .failed) : (s.linkUpdate io m).client.IsStarted := by
  have hre : (if s.userdata.state = .linger then
      s.mapLink fun l => { l.log .linkReadded with state := .enslaving } else s) =
      { s with userdata := s.userdata.readded } := by
    unfold Link.readded
    split <;> rfl
  have hr := changeMac_remade io m s
  unfold linkUpdate
  dsimp only
  rw [hre, hr.carrier, if_pos (by simp [hs, hm])]
  refine carrierGained_started hio ?_
  have hst := (readded_state_iff hl hman).mpr hf
  rw [← hr.state_eq] at hst
  exact hst

theorem linkUpdate_ne_linger {io : Nat → Io} {s : Iface} {m : LinkMessage} :
    (s.linkUpdate io m).userdata.state ≠ .linger := by
  obtain ⟨h, -⟩ | ⟨-, hst⟩ | ⟨h, -⟩ := (linkUpdate_effect io m s).stays
  · cases h
  · have hr : s.userdata.readded.state ≠ .linger := by
      unfold Link.readded
      split
      · simp
      · assumption
    obtain h | h | ⟨-, h⟩ := hst.state
    · rwa [h]
    · simp [h]
    · simp [h]
  · exact absurd rfl (h m)

/-- When the carrier comes back to a managed link, the client is started if and only if the link
has not failed. -/
theorem started_iff_not_failed {os : List Occurrence} {s : Iface} {c : Occurrence}
    {o : Option Iface} (h : Run LinkStep none os (some s)) (hm : s.userdata.managed = true)
    (hc : LinkStep (some s) c o) (hg : GainsCarrier s c.event) :
    (.acquiringLease ∈ c.out ↔ s.userdata.state ≠ .failed) ∧
      ((∀ call, 0 ≤ (c.io 0).result call) → s.userdata.state ≠ .failed →
        ∃ t, o = some t ∧ t.client.IsStarted) := by
  have hl := launched_of_run h s rfl
  have hout := out_of_run h s rfl
  cases hc with
  | @handle io e t ht =>
  obtain ⟨m, rfl, hs, hmc⟩ := hg
  have ht' : s.handle io (.newLink m) = some (.ok t) := ht
  refine ⟨(handle_effect ht').acquiring_iff hs hmc hm hl hout, fun hio hf => ?_⟩
  cases ht'
  have hst : (s.linkUpdate io m).userdata.state ≠ .linger := linkUpdate_ne_linger
  unfold settle
  rw [if_neg fun h => hst h.1]
  exact ⟨_, rfl, linkUpdate_started hio hs hmc hm hl hf⟩

/-- The carrier comes back. -/
def carrierReturn : Event := .newLink { carrier := true, mac := some 1 }

/-- The carrier comes back after it was lost with a lease. -/
theorem started_iff_not_failed_return :
    ∃ os s c t, Run LinkStep none os (some s) ∧ s.userdata.managed = true ∧
      LinkStep (some s) c (some t) ∧ GainsCarrier s c.event ∧ .acquiringLease ∈ c.out ∧
      t.client.IsStarted := by
  have hex : (execute none (acquisition sampleOptions ++ [(1300000, carrierLoss)])).any
      (fun (_, o) => o.any fun s =>
        s.userdata.managed && !s.userdata.carrier && s.userdata.state = .settingRoutes &&
          (resultOf (handleEvent (fun _ => quietIo 1400000) (some s) carrierReturn)).isSome) := by
    decide +kernel
  obtain ⟨os, o, hrun, ho⟩ := execute_reaches hex
  obtain ⟨s, rfl, hp⟩ := (Option.any_eq_true _ _).mp ho
  simp only [Bool.and_eq_true, Bool.not_eq_true', decide_eq_true_eq] at hp
  obtain ⟨⟨⟨hman, hcar⟩, hstate⟩, hres⟩ := hp
  obtain ⟨u, hu⟩ := Option.isSome_iff_exists.mp hres
  have hstep := LinkStep.handle (eq_of_resultOf hu)
  have hgain : GainsCarrier s carrierReturn := ⟨_, rfl, hcar, rfl⟩
  obtain ⟨hout, hstart⟩ := started_iff_not_failed hrun hman hstep hgain
  obtain ⟨t, ht, hc⟩ := hstart (fun _ => Int.le_refl 0) (by simp [hstate])
  rw [ht] at hstep
  exact ⟨os, s, _, t, hrun, hman, hstep, hgain, hout.mpr (by simp [hstate]), hc⟩

/-- The kernel refuses an address once, and no later return of the carrier starts the client. -/
theorem failed_link_not_started :
    ∃ os s c t, Run LinkStep none os (some s) ∧ s.userdata.managed = true ∧
      s.userdata.state ≠ .pending ∧ LinkStep (some s) c (some t) ∧ GainsCarrier s c.event ∧
      .acquiringLease ∉ c.out ∧ t.client.state = .stopped := by
  have hex : (execute none (acquisition sampleOptions ++
      [(1300000, .reply 0 (-13)), (1400000, carrierLoss)])).any (fun (_, o) => o.any fun s =>
        s.userdata.managed && !s.userdata.carrier && s.userdata.state = .failed &&
          (resultOf (handleEvent (fun _ => quietIo 1500000) (some s) carrierReturn)).any fun u =>
            !u.userdata.out.contains .acquiringLease &&
              u.settle.any fun t => t.client.state = .stopped) := by
    decide +kernel
  obtain ⟨os, o, hrun, ho⟩ := execute_reaches hex
  obtain ⟨s, rfl, hp⟩ := (Option.any_eq_true _ _).mp ho
  simp only [Bool.and_eq_true, Bool.not_eq_true', decide_eq_true_eq] at hp
  obtain ⟨⟨⟨hman, hcar⟩, hstate⟩, hres⟩ := hp
  obtain ⟨u, hu, hq⟩ := (Option.any_eq_true _ _).mp hres
  simp only [Bool.and_eq_true, Bool.not_eq_true'] at hq
  obtain ⟨t, ht, hstop⟩ := (Option.any_eq_true _ _).mp hq.2
  have hstep := LinkStep.handle (eq_of_resultOf hu)
  rw [ht] at hstep
  refine ⟨os, s, _, t, hrun, hman, by simp [hstate], hstep, ⟨_, rfl, hcar, rfl⟩, ?_,
    by simpa using hstop⟩
  simpa using hq.1

end CarFi.Roamingd

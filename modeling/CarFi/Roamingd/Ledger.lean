import Mathlib.Data.Finset.Basic
import Mathlib.Data.Finset.Insert
import CarFi.Roamingd.Configured

/-!
# What the daemon has asked the kernel for

The addresses and routes that were requested and not removed again, against those of the
lease of the link. The two agree once the replies are in, as long as a lease that replaces
another without a loss in between has all that the other had.
-/
namespace CarFi.Roamingd

open Library Attached

/-- What the kernel holds for a link on behalf of DHCP. -/
inductive Resource where
  | addr (a : Addr)
  | route (r : Route)
  deriving DecidableEq

def Lease.resources (l : Lease) : Finset Resource :=
  insert (.addr l.addr) (l.routes.map Resource.route).toFinset

/-- What a request does to the resources. -/
def Request.apply (R : Finset Resource) : Request → Finset Resource
  | .newAddr a => insert (.addr a) R
  | .delAddr a => R.erase (.addr a)
  | .newRoute r => insert (.route r) R
  | .delRoute r => R.erase (.route r)
  | .setLink => R

/-- The resources after some requests. -/
def standing (R : Finset Resource) (qs : List Request) : Finset Resource := qs.foldl Request.apply R

theorem standing_append (R : Finset Resource) (qs qs' : List Request) :
    standing R (qs ++ qs') = standing (standing R qs) qs' :=
  List.foldl_append

theorem standing_newRoutes (R : Finset Resource) (rs : List Route) :
    standing R (rs.map .newRoute) = R ∪ (rs.map Resource.route).toFinset := by
  induction rs generalizing R with
  | nil => simp [standing]
  | cons r rs ih =>
    refine (ih (insert (.route r) R)).trans ?_
    ext x
    simp only [List.map_cons, List.toFinset_cons, Finset.mem_union, Finset.mem_insert]
    tauto

/-- The resource that a removal names. -/
def Request.removes : Request → Option Resource
  | .delAddr a => some (.addr a)
  | .delRoute r => some (.route r)
  | _ => none

/-- Removals leave what none of them names. -/
theorem mem_standing_removals {R : Finset Resource} {qs : List Request} {x : Resource}
    (hq : ∀ q ∈ qs, q.removes.isSome = true) :
    x ∈ standing R qs ↔ x ∈ R ∧ ∀ q ∈ qs, q.removes ≠ some x := by
  induction qs generalizing R with
  | nil => simp [standing]
  | cons q qs ih =>
    have h := ih (R := q.apply R) fun q' hq' => hq q' (List.mem_cons_of_mem _ hq')
    refine h.trans ?_
    have hq' := hq q List.mem_cons_self
    cases q with
    | delAddr a => simp [Request.apply, Request.removes, eq_comm, and_assoc, and_left_comm]
    | delRoute r => simp [Request.apply, Request.removes, eq_comm, and_assoc, and_left_comm]
    | _ => cases hq'

namespace Link

/-- The requests by which a lease is given up name all its resources. -/
theorem removals_cover {lease : Lease} {x : Resource} (hx : x ∈ lease.resources) :
    ∃ p ∈ removals lease, p.2.removes = some x := by
  simp only [Lease.resources, Lease.routes, Finset.mem_insert, List.mem_toFinset, List.mem_map,
    List.mem_append] at hx
  simp only [removals, List.mem_append]
  obtain rfl | ⟨r, hr | ⟨sr, hsr, rfl⟩, rfl⟩ := hx
  · exact ⟨_, .inr List.mem_cons_self, rfl⟩
  · split at hr
    · cases hr
    · next h0 =>
      simp only [List.mem_cons, List.not_mem_nil, or_false] at hr
      obtain rfl | rfl := hr
      · exact ⟨(.removeHostRoute, .delRoute lease.hostRoute), .inl (.inr (by simp [h0])), rfl⟩
      · exact ⟨(.removeDefaultRoute, .delRoute lease.defaultRoute),
          .inl (.inr (by simp [h0])), rfl⟩
  · obtain ⟨i, hi, rfl⟩ := List.getElem_of_mem hsr
    refine ⟨(.removeStaticRoute i, .delRoute (Lease.staticRouteOf lease.staticRoutes[i])),
      .inl (.inl ?_), rfl⟩
    exact List.mem_mapIdx.mpr ⟨i, hi, rfl⟩

/-- A loss that is sent in full leaves nothing of the lease. -/
theorem standing_removed {io : Io} {lease : Lease} {R : Finset Resource}
    (hio : ∀ c, 0 ≤ io.result c) (hR : R ⊆ lease.resources) :
    standing R (removed io lease) = ∅ := by
  have hall : removed io lease = (removals lease).map Prod.snd := by
    unfold removed
    rw [List.filter_eq_self.mpr fun p _ => by simpa using hio p.1]
  refine Finset.eq_empty_of_forall_notMem fun x hx => ?_
  rw [mem_standing_removals fun q hq => by
    obtain ⟨_, rfl⟩ | ⟨_, rfl⟩ := removed_isDel hq <;> rfl] at hx
  obtain ⟨p, hp, hpx⟩ := removals_cover (hR hx.1)
  exact hx.2 p.2 (hall ▸ List.mem_map_of_mem hp) hpx

/-- What stands matches the lease, but for the routes while the reply to an address is due. -/
def Balanced (R : Finset Resource) (l : Link) : Prop :=
  match l.dhcpLease with
  | none => standing R l.sent = ∅
  | some lease =>
    standing R l.sent ⊆ lease.resources ∧ .addr lease.addr ∈ standing R l.sent ∧
      ((∃ a, .newAddr a ∈ l.pending) ∨ lease.resources ⊆ standing R l.sent)

/-- The account is balanced unless the link has failed. -/
def Solvent (R : Finset Resource) (l : Link) : Prop := l.state.isDown = true ∨ Balanced R l

variable {R : Finset Resource} {io : Io}

theorem Balanced.noted {l l' : Link} (h : Balanced R l) (hn : l.Noted l') : Balanced R l' := by
  obtain ⟨fs, rfl⟩ := hn
  exact h

theorem Balanced.lost {l : Link} (hio : ∀ c, 0 ≤ io.result c) (h : Balanced R l) :
    Balanced R (l.lost io) := by
  unfold Link.lost
  cases hl : l.dhcpLease with
  | none => exact h
  | some lease =>
    dsimp only
    rw [leaseLost_eq]
    simp only [Balanced, hl] at h
    change standing R (l.sent ++ removed io lease) = ∅
    rw [standing_append]
    exact standing_removed hio h.1

theorem Balanced.stopped {l : Link} (hio : ∀ c, 0 ≤ io.result c) (h : Balanced R l) :
    Balanced R (l.stopped io) := by
  unfold Link.stopped
  split
  · exact h
  · exact h.lost hio

/-- The address of a lease that takes nothing away may be requested. -/
theorem Balanced.updateAddress {l l' : Link} {lease : Lease} (hio : ∀ c, 0 ≤ io.result c)
    (h : Balanced R l) (hold : ∀ old, l.dhcpLease = some old →
      old.resources ⊆ lease.resources)
    (hs : l'.sent = l.sent) (hl : l'.dhcpLease = some lease) :
    Balanced R (l'.updateAddress io lease) := by
  have hsub : standing R l.sent ⊆ lease.resources := by
    cases hd : l.dhcpLease with
    | none =>
      simp only [Balanced, hd] at h
      simp [h]
    | some old =>
      simp only [Balanced, hd] at h
      exact h.1.trans (hold old hd)
  unfold Link.updateAddress
  rw [if_neg (Int.not_lt.mpr (hio _))]
  obtain ⟨own, foreign, hf⟩ := addressAdd_frame lease.addr (l'.request (.newAddr lease.addr))
  have hstand : standing R (l'.sent ++ [.newAddr lease.addr]) =
      insert (.addr lease.addr) (standing R l.sent) := by
    rw [standing_append, hs]
    rfl
  rw [hf]
  simp only [Balanced, Link.request, hl, hstand]
  refine ⟨Finset.insert_subset (Finset.mem_insert_self _ _) hsub, Finset.mem_insert_self _ _,
    .inl ⟨lease.addr, by simp⟩⟩

theorem Balanced.notified {l : Link} {e : ClientEvent} {lease : Lease}
    (hio : ∀ c, 0 ≤ io.result c) (h : Balanced R l)
    (hold : e ≠ .ipChange → ∀ old, l.dhcpLease = some old →
      old.resources ⊆ lease.resources) :
    Balanced R (l.notified io e (some lease)) := by
  unfold Link.notified
  split
  · exact h
  cases e with
  | stop => exact h.lost hio
  | expired => exact h.lost hio
  | ipChange => exact (h.lost hio).updateAddress hio (by simp [lost_dhcpLease]) rfl rfl
  | ipAcquire => exact h.updateAddress hio (hold (by simp)) rfl rfl
  | renew => exact h.updateAddress hio (hold (by simp)) rfl rfl
  | error r => exact h

/-! ### Replies -/

/-- A reply with an error fails the link, any other leaves it alone. -/
theorem failOn_cases (f : Failure) (r : Int) {l : Link} :
    l.failOn f r = l ∨ (l.failOn f r).state.isDown = true := by
  unfold failOn failWith fail
  split
  · split
    · next hd => exact .inr hd
    · exact .inr rfl
  · exact .inl rfl

/-- The address is there, and the routes of the lease are requested. -/
theorem Balanced.setDhcpRoutes {i : Nat} {l l' : Link} (hio : ∀ c, 0 ≤ io.result c)
    (h : Balanced R l)
    (hl : Link.setDhcpRoutes io { l with pending := l.pending.eraseIdx i } = .ok l') :
    Balanced R l' := by
  obtain ⟨lease, qs, m, hlease, -, ⟨fs, rfl⟩, -, hall⟩ := setDhcpRoutes_ok hl
  obtain ⟨rfl, rfl⟩ := hall hio
  have hlease' : l.dhcpLease = some lease := hlease
  simp only [Balanced, hlease'] at h
  obtain ⟨hsub, haddr, -⟩ := h
  have hstand : standing R (l.sent ++ lease.routes.map .newRoute) =
      standing R l.sent ∪ (lease.routes.map Resource.route).toFinset := by
    rw [standing_append, standing_newRoutes]
  simp only [Balanced, requestRoutes, requestAll, hlease', hstand]
  refine ⟨Finset.union_subset hsub (Finset.subset_insert _ _), Finset.mem_union_left _ haddr,
    .inr (Finset.insert_subset (Finset.mem_union_left _ haddr) Finset.subset_union_right)⟩

/-- Other replies only leave the list. -/
theorem Balanced.erase {i : Nat} {q : Request} {l : Link} (h : Balanced R l)
    (hq : l.pending[i]? = some q) (ha : ∀ a, q ≠ .newAddr a) :
    Balanced R { l with pending := l.pending.eraseIdx i } := by
  unfold Balanced at h ⊢
  dsimp only
  split
  · next hl => simpa [hl] using h
  · next lease hl =>
    simp only [hl] at h
    refine ⟨h.1, h.2.1, h.2.2.imp (fun ⟨a, hmem⟩ => ⟨a, ?_⟩) id⟩
    exact mem_eraseIdx_of_ne hq hmem (ha a)

theorem Balanced.checkReady {l l' : Link} (h : Balanced R l) (hl : l.checkReady = .ok l') :
    Balanced R l' := by
  obtain rfl | ⟨-, rfl⟩ := checkReady_frame hl
  · exact h
  · exact h

theorem Balanced.replied {r : Int} {q : Request} {i : Nat} {l l' : Link}
    (hio : ∀ c, 0 ≤ io.result c) (h : Balanced R l) (hq : l.pending[i]? = some q)
    (hl : Link.replied io r { l with pending := l.pending.eraseIdx i } q = .ok l') :
    Solvent R l' := by
  cases q with
  | newAddr a =>
    simp only [Link.replied] at hl
    obtain hf | hf := failOn_cases .setAddress r
    · rw [hf] at hl
      exact .inr (h.setDhcpRoutes hio hl)
    · obtain ⟨lease, qs, m, -, -, ⟨fs, rfl⟩, -, hall⟩ := setDhcpRoutes_ok hl
      obtain ⟨-, rfl⟩ := hall hio
      exact .inl hf
  | newRoute route =>
    have he := h.erase hq (by simp)
    simp only [Link.replied] at hl
    split at hl
    · cases hl
    next n _ =>
    obtain hf | hf := failOn_cases .setRoute r
    · rw [hf] at hl
      split at hl
      · have hc : Balanced R { l with
            pending := l.pending.eraseIdx i, dhcp4Messages := n, dhcp4Configured := true } := he
        exact .inr (hc.checkReady hl)
      · cases hl
        exact .inr he
    · split at hl
      · exact .inl (checkReady_isDown hl hf)
      · cases hl
        exact .inl hf
  | delRoute route =>
    cases hl
    exact .inr ((h.erase hq (by simp)).noted (note_noted ..))
  | delAddr a =>
    cases hl
    exact .inr ((h.erase hq (by simp)).noted (note_noted ..))
  | setLink =>
    cases hl
    exact .inr ((h.erase hq (by simp)).noted (note_noted ..))

end Link

/-! ## Runs -/

/-- A lease that the client accepts without the loss of the one before has all the resources of that
one. -/
def Event.extendsLease (s : Iface) : Event → Bool
  | .receive m => (s.client.accepted m).all fun lease =>
    notifyEvent s.client lease = some .ipChange ||
      s.userdata.dhcpLease.all fun old => decide (old.resources ⊆ lease.resources)
  | _ => true

/-- The link is up and not removed, no call fails, and a lease without a loss before it takes
nothing away. -/
structure Steady (o : Option Iface) (c : Occurrence) : Prop where
  calls : ∀ k call, 0 ≤ (c.io k).result call
  stays : c.event ≠ .delLink
  up : ∀ s, o = some s → s.userdata.state.isDown = false
  extends_lease : ∀ s, o = some s → c.event.extendsLease s = true

section
variable {R : Finset Resource}

theorem Remade.balanced {io : Nat → Io} {m : LinkMessage} {s : Iface} {l : Link}
    (h : Remade io m s l) (hio : ∀ c, 0 ≤ (io 1).result c)
    (hup : s.userdata.state.isDown = false) (hs : s.userdata.Balanced R) : l.Balanced R := by
  have hre : s.userdata.readded = s.userdata :=
    if_neg fun hl => by simp [hl, LinkState.isDown] at hup
  cases h with
  | same => rwa [hre]
  | idle _ => rwa [hre]
  | @restarted mac _ _ _ hn =>
    rw [hre] at hn
    have hmac : Link.Balanced R { s.userdata with mac := mac } := hs
    exact (hmac.stopped hio).noted hn

theorem Gained.solvent {io : Io} {l l' : Link} (h : Gained io l l') (hl : l.Balanced R) :
    l'.Solvent R := by
  have hlog : (l.log .acquiringLease).Balanced R := hl
  cases h with
  | ignored _ => exact .inr hl
  | started _ hn => exact .inr (hlog.noted hn)
  | failed _ hn _ =>
    unfold Link.fail
    split
    · exact .inr (hlog.noted hn)
    · exact .inl rfl

theorem Effect.solvent {s : Iface} {c : Occurrence} {l : Link} (h : Effect c.io s c.event l)
    (hc : Steady (some s) c) (hs : s.userdata.Balanced R) : l.Solvent R := by
  obtain ⟨io, e, sent, out⟩ := c
  have hio := hc.calls 0
  have hup := hc.up s rfl
  have hremade {m : LinkMessage} {l : Link} (hl : Remade io m s l) : l.Balanced R :=
    hl.balanced (hc.calls 1) hup hs
  cases h with
  | carrierSame hl _ =>
    have hb := hremade hl
    exact .inr hb
  | @carrierGained m l _ hl _ _ hg =>
    have hb := hremade hl
    have hlog : (Link.log .gainedCarrier { l with carrier := m.carrier }).Balanced R := hb
    exact hg.solvent hlog
  | @carrierLost m l hl _ _ =>
    have hb := hremade hl
    have hlog : (Link.log .lostCarrier { l with carrier := m.carrier }).Balanced R := hb
    exact .inr (hlog.stopped hio)
  | delLink => exact absurd rfl hc.stays
  | newAddr h => obtain ⟨_, _, rfl | ⟨-, rfl⟩⟩ := Link.newAddr_frame h <;> exact .inr hs
  | delAddr h => obtain ⟨_, _, rfl | ⟨-, rfl⟩⟩ := Link.delAddr_frame h <;> exact .inr hs
  | reply hq h => exact hs.replied hio hq h
  | ignored hn => exact .inr (hs.noted hn)
  | @acknowledged m lease e l _ ha he hn hx =>
    obtain ⟨hneg, -⟩ | ⟨u1, u2, rfl⟩ := hx
    · exact absurd (hio _) (Int.not_le.mpr hneg)
    refine .inr ((hs.noted hn).notified hio fun hne old hold => ?_)
    -- the two times are no part of the resources
    change old.resources ⊆ lease.resources
    have hext := hc.extends_lease s rfl
    obtain ⟨fs, rfl⟩ := hn
    have hold' : s.userdata.dhcpLease = some old := hold
    simpa [Event.extendsLease, ha, he, hne, hold'] using hext
  | resend hn => exact .inr (hs.noted hn)
  | t1 hn => exact .inr (hs.noted hn)
  | t2 hn => exact .inr (hs.noted hn)
  | expire hn => exact .inr ((hs.stopped hio).noted hn)

/-- Nothing stands for a link that is new. -/
theorem Added.balanced {m : LinkMessage} {l : Link} (h : Added m l) : l.Balanced ∅ := by
  have hkeep : ∀ qs : List Request, (∀ q ∈ qs, q = .setLink) → standing ∅ qs = ∅ := by
    intro qs hqs
    induction qs with
    | nil => rfl
    | cons q qs ih =>
      obtain rfl := hqs q List.mem_cons_self
      exact ih fun q hq => hqs q (List.mem_cons_of_mem _ hq)
  simpa [Link.Balanced, h.fresh.lease] using hkeep _ h.fresh.sent

end

/-- What the daemon has asked for in a run, against the link it has come to. -/
def Accounted (os : List Occurrence) : Option Iface → Prop
  | none => standing ∅ (os.flatMap Occurrence.sent) = ∅
  | some s =>
    s.userdata.sent = [] ∧ s.userdata.Solvent (standing ∅ (os.flatMap Occurrence.sent))

theorem Accounted.step {os : List Occurrence} {o o' : Option Iface} {c : Occurrence}
    (ho : Accounted os o) (h : Guarded Steady LinkStep o c o') : Accounted (os ++ [c]) o' := by
  obtain ⟨hc, hstep⟩ := h
  cases hstep with
  | @handle io e t h =>
  -- the account after the event, and that the link is not gone
  have ht : t.userdata.Solvent (standing ∅ (os.flatMap Occurrence.sent)) ∧
      t.userdata.state ≠ .linger := by
    cases o with
    | none =>
      obtain ⟨m, _, t', -, -, ht, ha⟩ := handleEvent_none h
      cases ht
      rw [show standing ∅ (os.flatMap Occurrence.sent) = ∅ from ho]
      refine ⟨.inr ha.balanced, ?_⟩
      cases ha with
      | unmanaged _ _ hs _ => simp [hs]
      | failed _ _ hs _ => simp [hs]
      | settingRoutes _ _ hs _ => simp [hs]
    | some s =>
      have heff := handle_effect h
      have hup := hc.up s rfl
      have hbal : s.userdata.Balanced (standing ∅ (os.flatMap Occurrence.sent)) :=
        ho.2.resolve_left (by simp [hup])
      refine ⟨Effect.solvent (c := ⟨io, e, t.userdata.sent, t.userdata.out⟩)
        heff hc hbal, ?_⟩
      have hne : s.userdata.state ≠ .linger := fun hl => by simp [hl, LinkState.isDown] at hup
      have hre : s.userdata.readded = s.userdata := if_neg hne
      have hstay : s.userdata.Stays t.userdata := by
        obtain ⟨he, -⟩ | ⟨-, hst⟩ | ⟨-, hst⟩ := heff.stays
        · exact absurd he hc.stays
        · rwa [hre] at hst
        · exact hst
      obtain hst | hst | ⟨-, hst⟩ := hstay.state
      · rwa [hst]
      · simp [hst]
      · simp [hst]
  have hflat (c : Occurrence) : standing ∅ ((os ++ [c]).flatMap Occurrence.sent) =
      standing (standing ∅ (os.flatMap Occurrence.sent)) c.sent := by
    simp [standing_append]
  unfold Attached.settle
  rw [if_neg fun h => ht.2 h.1]
  refine ⟨rfl, ?_⟩
  rw [hflat]
  exact ht.1

/-- On a link that stays up, once all replies are in, what has been requested and not removed
again is what belongs to the lease. -/
theorem standing_eq_resources {os : List Occurrence} {s : Iface}
    (h : Run (Guarded Steady LinkStep) none os (some s))
    (hup : s.userdata.state.isDown = false) (hp : s.userdata.pending = []) :
    standing ∅ (os.flatMap Occurrence.sent) =
      (s.userdata.dhcpLease.map Lease.resources).getD ∅ := by
  have hnone : Accounted [] none := rfl
  obtain ⟨hsent, hacc⟩ : Accounted os (some s) :=
    Run.invariant_trace (fun _ _ _ _ => Accounted.step) h hnone
  have hbal := hacc.resolve_left (by simp [hup])
  simp only [Link.Balanced, hsent, hp] at hbal
  cases hl : s.userdata.dhcpLease with
  | none => simpa [hl, standing] using hbal
  | some lease =>
    simp only [hl, List.not_mem_nil, exists_false, false_or] at hbal
    exact hbal.1.antisymm hbal.2.2

/-- The link is up and not removed. -/
def staysUp (o : Option Iface) (e : Event) : Bool :=
  (match e with | .delLink => false | _ => true) && o.all fun s => !s.userdata.state.isDown

theorem staysUp_iff {o : Option Iface} {e : Event} : staysUp o e = true ↔
    e ≠ .delLink ∧ ∀ s, o = some s → s.userdata.state.isDown = false := by
  cases e <;> cases o <;> simp [staysUp]

/-- The condition of the theorem, where no call fails. -/
def isSteady (o : Option Iface) (e : Event) : Bool :=
  staysUp o e && o.all fun s => e.extendsLease s

theorem steady_of_isSteady {o : Option Iface} {e : Event} {now : Nat} {sent : List Request}
    {out : List LogMsg} (h : isSteady o e = true) :
    Steady o ⟨fun _ => quietIo now, e, sent, out⟩ := by
  simp only [isSteady, Bool.and_eq_true, staysUp_iff] at h
  refine ⟨fun _ _ => Int.le_refl 0, h.1.1, h.1.2, ?_⟩
  rintro s rfl
  exact h.2

/-- A lease with the static routes `before` is confirmed and renewed with the routes `after`. -/
def renewal (before after : List StaticRoute) : List (Nat × Event) :=
  acquisition { sampleOptions with staticRoutes := before } ++
    List.replicate (3 + before.length) (1300000, Event.reply 0 0) ++
    [(1801000000, Event.t1), (1801000000, .resend),
      (1801100000, .receive ⟨7, .ack { sampleOptions with staticRoutes := after }⟩)] ++
    List.replicate (3 + after.length) (1801200000, Event.reply 0 0)

theorem standing_eq_resources_renewal :
    ∃ os s lease, Run (Guarded Steady LinkStep) none os (some s) ∧
      s.userdata.state.isDown = false ∧ s.userdata.pending = [] ∧
      s.userdata.dhcpLease = some lease ∧
      standing ∅ (os.flatMap Occurrence.sent) = lease.resources := by
  have hex : (execute none (renewal [⟨0x0a000000, 8, 0xc0a80001⟩]
      [⟨0x0a000000, 8, 0xc0a80001⟩, ⟨0x0b000000, 8, 0xc0a80001⟩])).any
        (fun (_, o) => o.any fun s =>
        s.userdata.dhcpLease.isSome && s.userdata.pending = [] && !s.userdata.state.isDown) := by
    decide +kernel
  have hmeets : meets isSteady none (renewal [⟨0x0a000000, 8, 0xc0a80001⟩]
      [⟨0x0a000000, 8, 0xc0a80001⟩, ⟨0x0b000000, 8, 0xc0a80001⟩]) = true := by
    decide +kernel
  obtain ⟨⟨os, o⟩, ho, hs⟩ := (Option.any_eq_true _ _).mp hex
  obtain ⟨s, rfl, hp⟩ := (Option.any_eq_true _ _).mp hs
  simp only [Bool.and_eq_true, Bool.not_eq_true', decide_eq_true_eq] at hp
  obtain ⟨lease, hl⟩ := Option.isSome_iff_exists.mp hp.1.1
  have hrun := execute_run_meets ho hmeets fun _ _ _ _ _ => steady_of_isSteady
  refine ⟨os, s, lease, hrun, hp.2, hp.1.2, hl, ?_⟩
  simpa [hl] using standing_eq_resources hrun hp.2 hp.1.2

/-- A renewal that moves a static route to another gateway: the route through the old one is
never removed. -/
theorem renewal_leaves_old_route :
    ∃ os s lease, Run (Guarded (fun o c => c.event ≠ .delLink ∧
        ∀ s, o = some s → s.userdata.state.isDown = false) LinkStep) none os (some s) ∧
      s.userdata.state.isDown = false ∧ s.userdata.pending = [] ∧
      s.userdata.dhcpLease = some lease ∧
      Resource.route ⟨0x0a000000, 8, 0xc0a80001⟩ ∈
        standing ∅ (os.flatMap Occurrence.sent) ∧
      Resource.route ⟨0x0a000000, 8, 0xc0a80001⟩ ∉ lease.resources := by
  have hex : (execute none (renewal [⟨0x0a000000, 8, 0xc0a80001⟩]
      [⟨0x0a000000, 8, 0xc0a80002⟩])).any (fun (os, o) => o.any fun s =>
        s.userdata.dhcpLease.any (fun lease => decide
          (Resource.route ⟨0x0a000000, 8, 0xc0a80001⟩ ∉ lease.resources)) &&
        s.userdata.pending = [] && !s.userdata.state.isDown && decide
          (Resource.route ⟨0x0a000000, 8, 0xc0a80001⟩ ∈
            standing ∅ (os.flatMap Occurrence.sent))) := by
    decide +kernel
  have hmeets : meets staysUp none (renewal [⟨0x0a000000, 8, 0xc0a80001⟩]
      [⟨0x0a000000, 8, 0xc0a80002⟩]) = true := by decide +kernel
  obtain ⟨⟨os, o⟩, ho, hs⟩ := (Option.any_eq_true _ _).mp hex
  obtain ⟨s, rfl, hp⟩ := (Option.any_eq_true _ _).mp hs
  simp only [Bool.and_eq_true, Bool.not_eq_true', decide_eq_true_eq] at hp
  obtain ⟨⟨⟨hl, hpend⟩, hup⟩, hin⟩ := hp
  obtain ⟨lease, hl, hout⟩ := (Option.any_eq_true _ _).mp hl
  refine ⟨os, s, lease, ?_, hup, hpend, hl, hin, by simpa using hout⟩
  exact execute_run_meets ho hmeets fun _ _ _ _ _ => staysUp_iff.mp

end CarFi.Roamingd

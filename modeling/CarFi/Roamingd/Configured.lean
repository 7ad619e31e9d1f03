import Mathlib.Data.List.Nodup
import Mathlib.Data.List.Perm.Basic
import CarFi.Roamingd.LinkEvents

/-!
# The way to a configured link

A lease leads to a configured link by way of the kernel: the reply to the address sends the
requests for the routes, and the reply to the last route marks the link as configured. The
counter of replies keeps the two halves together, provided that there is a route to ask for.
-/
namespace CarFi.Roamingd

open Library Attached

/-- The kernel grants what it is asked for, the link is not removed, and a lease that the client
accepts has a route. -/
def Event.isSmooth (o : Option Iface) : Event → Bool
  | .delLink => false
  | .reply _ r => !isError r eexist
  | .receive m => o.all fun s => (s.client.accepted m).all fun lease => lease.routes ≠ []
  | _ => true

/-- A smooth event during which no call fails. -/
structure Smooth (o : Option Iface) (c : Occurrence) : Prop where
  calls : ∀ k call, 0 ≤ (c.io k).result call
  event : c.event.isSmooth o = true

def Request.isNewRoute : Request → Bool
  | .newRoute _ => true
  | _ => false

/-- What holds of the link whether or not it has been checked. -/
structure Link.Underway (l : Link) : Prop where
  counted : l.dhcp4Messages = l.pending.countP Request.isNewRoute
  unique : (l.addresses.map AddrEntry.addr).Nodup
  static : l.staticConfigured = true →
    l.managed = true ∧ (l.state = .settingRoutes ∨ l.state = .configured)
  present : l.state ≠ .linger
  progress : ∀ lease, l.dhcpLease = some lease → lease.routes ≠ [] ∧
    (.newAddr lease.addr ∈ l.pending ∨ 0 < l.dhcp4Messages ∨ l.dhcp4Configured = true)

/-- A link that is ready has been noticed. -/
def Link.Noticed (l : Link) : Prop :=
  l.staticConfigured = true → l.dhcp4Configured = true → l.addresses.all (·.ready) = true →
    l.state = .configured

namespace Link

theorem Underway.noted {l l' : Link} (h : l.Underway) (hn : l.Noted l') : l'.Underway := by
  obtain ⟨fs, rfl⟩ := hn
  exact { h with }

theorem Noticed.noted {l l' : Link} (h : l.Noticed) (hn : l.Noted l') : l'.Noticed := by
  obtain ⟨fs, rfl⟩ := hn
  exact h

/-! ## Leases -/

theorem removed_not_isNewRoute {io : Io} {lease : Lease} {q : Request}
    (h : q ∈ removed io lease) : q.isNewRoute = false := by
  obtain ⟨_, rfl⟩ | ⟨_, rfl⟩ := removed_isDel h <;> rfl

theorem Underway.lost {io : Io} {l : Link} (h : l.Underway) : (l.lost io).Underway := by
  unfold Link.lost
  split
  · exact h
  next lease _ =>
  rw [leaseLost_eq]
  refine ⟨?_, h.unique, h.static, h.present, by simp⟩
  have hz : (removed io lease).countP Request.isNewRoute = 0 :=
    List.countP_eq_zero.mpr fun q hq => by simp [removed_not_isNewRoute hq]
  simpa [requestAll, log, hz] using h.counted

theorem Noticed.lost {io : Io} {l : Link} (h : l.Noticed) : (l.lost io).Noticed := by
  unfold Link.lost
  split
  · exact h
  · rw [leaseLost_eq]
    exact fun _ hc => by simp at hc

theorem Underway.stopped {io : Io} {l : Link} (h : l.Underway) : (l.stopped io).Underway := by
  unfold Link.stopped
  split
  · exact h
  · exact h.lost

theorem Noticed.stopped {io : Io} {l : Link} (h : l.Noticed) : (l.stopped io).Noticed := by
  unfold Link.stopped
  split
  · exact h
  · exact h.lost

/-- A further address never makes a link ready. -/
theorem addressAdd_all {a : Addr} {l : Link}
    (h : (l.addressAdd a).addresses.all (·.ready) = true) : l.addresses.all (·.ready) = true := by
  unfold addressAdd at h
  split at h
  · exact h
  split at h <;> simp_all

theorem Underway.updateAddress {io : Io} {lease : Lease} {l : Link} (hio : ∀ c, 0 ≤ io.result c)
    (h : l.dhcp4Messages = l.pending.countP Request.isNewRoute)
    (hu : (l.addresses.map AddrEntry.addr).Nodup)
    (hs : l.staticConfigured = true →
      l.managed = true ∧ (l.state = .settingRoutes ∨ l.state = .configured))
    (hp : l.state ≠ .linger) (hl : l.dhcpLease = some lease) (hr : lease.routes ≠ []) :
    (l.updateAddress io lease).Underway := by
  unfold Link.updateAddress
  rw [if_neg (Int.not_lt.mpr (hio _))]
  have hua := addressAdd_unique (a := lease.addr) (l := l.request (.newAddr lease.addr)) hu
  obtain ⟨own, foreign, hf⟩ := addressAdd_frame lease.addr (l.request (.newAddr lease.addr))
  rw [hf] at hua ⊢
  refine ⟨?_, hua, hs, hp, fun lease' hl' => ?_⟩
  · simpa [request, List.countP_append, Request.isNewRoute] using h
  · obtain rfl : lease = lease' := Option.some.inj (hl.symm.trans hl')
    exact ⟨hr, .inl (by simp [request])⟩

theorem Noticed.updateAddress {io : Io} {lease : Lease} {l : Link}
    (hio : ∀ c, 0 ≤ io.result c) (h : l.Noticed) : (l.updateAddress io lease).Noticed := by
  unfold Link.updateAddress
  rw [if_neg (Int.not_lt.mpr (hio _))]
  have hall := addressAdd_all (a := lease.addr) (l := l.request (.newAddr lease.addr))
  obtain ⟨own, foreign, hf⟩ := addressAdd_frame lease.addr (l.request (.newAddr lease.addr))
  rw [hf] at hall ⊢
  exact fun hs hc ha => h hs hc (hall ha)

theorem Underway.acquired {io : Io} {lease : Lease} {l : Link} (hio : ∀ c, 0 ≤ io.result c)
    (h : l.Underway) (hr : lease.routes ≠ []) : (l.acquired io (some lease)).Underway :=
  .updateAddress hio h.counted h.unique h.static h.present rfl hr

theorem Noticed.acquired {io : Io} {lease : Lease} {l : Link} (hio : ∀ c, 0 ≤ io.result c)
    (h : l.Noticed) : (l.acquired io (some lease)).Noticed :=
  .updateAddress hio h

theorem Underway.notified {io : Io} {e : ClientEvent} {lease : Lease} {l : Link}
    (hio : ∀ c, 0 ≤ io.result c) (h : l.Underway) (hr : lease.routes ≠ []) :
    (l.notified io e (some lease)).Underway := by
  unfold Link.notified
  split
  · exact h
  cases e with
  | stop => exact h.lost
  | expired => exact h.lost
  | ipChange => exact h.lost.acquired hio hr
  | ipAcquire => exact h.acquired hio hr
  | renew => exact .updateAddress hio h.counted h.unique h.static h.present rfl hr
  | error r => exact { h with }

theorem Noticed.notified {io : Io} {e : ClientEvent} {lease : Lease} {l : Link}
    (hio : ∀ c, 0 ≤ io.result c) (h : l.Noticed) :
    (l.notified io e (some lease)).Noticed := by
  unfold Link.notified
  split
  · exact h
  cases e with
  | stop => exact h.lost
  | expired => exact h.lost
  | ipChange => exact h.lost.acquired hio
  | ipAcquire => exact h.acquired hio
  | renew => exact .updateAddress hio fun _ hc => by simp at hc
  | error r => exact h

/-! ## Checks and addresses -/

theorem Underway.checkReady {l l' : Link} (h : l.Underway) (hl : l.checkReady = .ok l') :
    l'.Underway := by
  obtain rfl | ⟨hs, rfl⟩ := checkReady_frame hl
  · exact h
  · exact ⟨h.counted, h.unique, fun hc => ⟨(h.static hc).1, .inr rfl⟩, by simp, h.progress⟩

/-- A check notices what there is to notice. -/
theorem Noticed.of_checkReady {l l' : Link} (h : l.Underway) (hl : l.checkReady = .ok l') :
    l'.Noticed := by
  unfold Link.checkReady at hl
  split at hl
  · split at hl
    · cases hl
      exact fun _ _ _ => rfl
    · cases hl
  · next hn =>
    cases hl
    intro hs hc ha
    by_contra hst
    exact hn ⟨(h.static hs).1, hs, hc, ha, hst⟩

theorem Underway.retable {l : Link} (h : l.Underway) {own foreign : List AddrEntry}
    (hu : (own.map AddrEntry.addr).Nodup) :
    ({ l with addresses := own, addressesForeign := foreign } : Link).Underway :=
  ⟨h.counted, hu, h.static, h.present, h.progress⟩

theorem setReady_eq (a : Addr) (ready : Bool) (l : Link) :
    ∃ foreign, l.setReady a ready = { l with
      addresses := l.addresses.map fun e => if e.addr = a then ⟨a, ready⟩ else e
      addressesForeign := foreign } := by
  unfold setReady
  dsimp only
  split
  · exact ⟨_, rfl⟩
  · next ha =>
    have hid : (l.addresses.map fun e => if e.addr = a then ⟨a, ready⟩ else e) =
        l.addresses := by
      refine (List.map_congr_left fun e he => ?_).trans (List.map_id _)
      exact if_neg fun h => ha (List.any_eq_true.mpr ⟨e, he, by simpa using h⟩)
    exact ⟨_, by rw [hid]⟩

theorem Underway.setReady {a : Addr} {ready : Bool} {l : Link} (h : l.Underway) :
    (l.setReady a ready).Underway := by
  obtain ⟨foreign, hs⟩ := setReady_eq a ready l
  rw [hs]
  refine h.retable ?_
  have haddr : (l.addresses.map fun e => if e.addr = a then (⟨a, ready⟩ : AddrEntry) else e).map
      AddrEntry.addr = l.addresses.map AddrEntry.addr := by
    rw [List.map_map]
    refine List.map_congr_left fun e _ => ?_
    by_cases he : e.addr = a <;> simp [he]
  rw [haddr]
  exact h.unique

/-- The entry that a look-up finds is the only one of its address among the own ones. -/
theorem Underway.eq_of_addressGet {a : Addr} {l : Link} {e e' : AddrEntry} (h : l.Underway)
    (hg : l.addressGet a = some e) (he' : e' ∈ l.addresses) (ha : e'.addr = a) : e' = e := by
  unfold addressGet at hg
  cases hf : l.addresses.find? (·.addr = a) with
  | none =>
    have := List.find?_eq_none.mp hf e' he'
    simp [ha] at this
  | some f =>
    rw [hf, Option.some_or] at hg
    obtain rfl := Option.some.inj hg
    have hfa : f.addr = a := by simpa using List.find?_some hf
    exact List.inj_on_of_nodup_map h.unique he' (List.mem_of_find?_eq_some hf) (ha.trans hfa.symm)

theorem Underway.newAddr {a : Addr} {ready : Bool} {l l' : Link} (h : l.Underway)
    (hl : l.newAddr a ready = .ok l') : l'.Underway := by
  unfold Link.newAddr at hl
  split at hl
  · split at hl
    · exact h.setReady.checkReady hl
    · cases hl
      exact h.setReady
  · dsimp only at hl
    split at hl
    · exact (h.retable h.unique).checkReady hl
    · cases hl
      exact h.retable h.unique

theorem Noticed.newAddr {a : Addr} {ready : Bool} {l l' : Link} (h : l.Noticed)
    (hu : l.Underway) (hl : l.newAddr a ready = .ok l') : l'.Noticed := by
  unfold Link.newAddr at hl
  split at hl
  · next e he =>
    split at hl
    · exact .of_checkReady hu.setReady hl
    · next hr =>
      cases hl
      obtain ⟨foreign, hs⟩ := setReady_eq a ready l
      rw [hs]
      intro hst hc hall
      refine h hst hc (List.all_eq_true.mpr fun e' he' => ?_)
      by_cases ha : e'.addr = a
      · -- the flag of this entry has not risen
        have hready : ready = true := by
          have := List.all_eq_true.mp hall _ (List.mem_map_of_mem he')
          simpa [ha] using this
        rw [hu.eq_of_addressGet he he' ha]
        simpa [hready] using hr
      · have := List.all_eq_true.mp hall _ (List.mem_map_of_mem he')
        simpa [ha] using this
  · dsimp only at hl
    split at hl
    · exact .of_checkReady (hu.retable hu.unique) hl
    · cases hl
      exact h

/-- The own addresses without one of them. -/
theorem dropped_eq (a : Addr) (l : Link) :
    ∃ foreign, (if l.addresses.any (·.addr = a) then
      { l with addresses := l.addresses.filter (·.addr ≠ a) }
      else { l with addressesForeign := l.addressesForeign.filter (·.addr ≠ a) }) = { l with
        addresses := l.addresses.filter (·.addr ≠ a), addressesForeign := foreign } := by
  split
  · exact ⟨_, rfl⟩
  · next ha =>
    have hid : l.addresses.filter (·.addr ≠ a) = l.addresses := by
      refine List.filter_eq_self.mpr fun e he => ?_
      have := fun h => ha (List.any_eq_true.mpr ⟨e, he, h⟩)
      simpa using this
    exact ⟨_, by rw [hid]⟩

theorem Underway.dropped {a : Addr} {l : Link} (h : l.Underway) {foreign : List AddrEntry} :
    ({ l with
      addresses := l.addresses.filter (·.addr ≠ a), addressesForeign :=
        foreign } : Link).Underway :=
  h.retable (h.unique.sublist (List.filter_sublist.map _))

theorem Underway.delAddr {a : Addr} {l l' : Link} (h : l.Underway) (hl : l.delAddr a = .ok l') :
    l'.Underway := by
  unfold Link.delAddr at hl
  split at hl
  · cases hl
    exact h
  obtain ⟨foreign, hd⟩ := dropped_eq a l
  dsimp only at hl
  rw [hd] at hl
  split at hl
  · cases hl
    exact h.dropped
  · exact h.dropped.checkReady hl

theorem Noticed.delAddr {a : Addr} {l l' : Link} (h : l.Noticed) (hu : l.Underway)
    (hl : l.delAddr a = .ok l') : l'.Noticed := by
  unfold Link.delAddr at hl
  split at hl
  · cases hl
    exact h
  next e he =>
  obtain ⟨foreign, hd⟩ := dropped_eq a l
  dsimp only at hl
  rw [hd] at hl
  split at hl
  · next hr =>
    cases hl
    intro hst hc hall
    refine h hst hc (List.all_eq_true.mpr fun e' he' => ?_)
    by_cases ha : e'.addr = a
    · rw [hu.eq_of_addressGet he he' ha]
      exact hr
    · exact List.all_eq_true.mp hall e' (List.mem_filter.mpr ⟨he', by simpa using ha⟩)
  · exact .of_checkReady hu.dropped hl

/-! ## Replies -/

theorem countP_eraseIdx {p : Request → Bool} {qs : List Request} {i : Nat} {q : Request}
    (h : qs[i]? = some q) : qs.countP p = (qs.eraseIdx i).countP p + if p q then 1 else 0 := by
  obtain ⟨hi, rfl⟩ := List.getElem?_eq_some_iff.mp h
  rw [← (List.getElem_cons_eraseIdx_perm hi).countP_eq p, List.countP_cons]

theorem mem_eraseIdx_of_ne {qs : List Request} {i : Nat} {q q' : Request} (h : qs[i]? = some q)
    (hq : q' ∈ qs) (hne : q ≠ q') : q' ∈ qs.eraseIdx i := by
  obtain ⟨j, hj⟩ := List.mem_iff_getElem?.mp hq
  refine List.mem_eraseIdx_iff_getElem?.mpr ⟨j, ?_, hj⟩
  rintro rfl
  exact hne (Option.some.inj (h.symm.trans hj))

/-- The reply to an address request sends the requests for the routes. -/
theorem Underway.replied_newAddr {io : Io} {r : Int} {a : Addr} {i : Nat} {l l' : Link}
    (hio : ∀ c, 0 ≤ io.result c) (hr : isError r eexist = false) (h : l.Underway)
    (hq : l.pending[i]? = some (.newAddr a))
    (hl : Link.replied io r { l with pending := l.pending.eraseIdx i } (.newAddr a) = .ok l') :
    l'.Underway := by
  have hcount := countP_eraseIdx (p := Request.isNewRoute) hq
  simp only [Link.replied, failOn, hr, Bool.false_eq_true, if_false] at hl
  obtain ⟨lease, qs, m, hlease, -, ⟨fs, hn⟩, -, hall⟩ := setDhcpRoutes_ok hl
  obtain ⟨rfl, rfl⟩ := hall hio
  rw [hn]
  obtain ⟨hne, -⟩ := h.progress lease hlease
  refine ⟨?_, h.unique, h.static, h.present, fun lease' hl' => ?_⟩
  · have hroutes : (lease.routes.map Request.newRoute).countP Request.isNewRoute =
        lease.routes.length := by
      simp [List.countP_map, Function.comp_def, Request.isNewRoute]
    simp only [requestRoutes, requestAll, List.countP_append, hroutes]
    simp only [Request.isNewRoute, Bool.false_eq_true, if_false, Nat.add_zero] at hcount
    rw [h.counted, hcount]
  · obtain rfl : lease = lease' := Option.some.inj (hlease.symm.trans hl')
    have := List.length_pos_iff.mpr hne
    exact ⟨hne, .inr (.inl (by simp [requestRoutes, requestAll]; omega))⟩

/-- The reply to a route counts, and the last one marks the link. -/
theorem Underway.replied_newRoute {io : Io} {r : Int} {route : Route} {i : Nat} {l l' : Link}
    (hr : isError r eexist = false) (h : l.Underway)
    (hq : l.pending[i]? = some (.newRoute route))
    (hl : Link.replied io r { l with pending := l.pending.eraseIdx i } (.newRoute route) = .ok l')
    (hn : l.Noticed) : l'.Underway ∧ l'.Noticed := by
  have hcount := countP_eraseIdx (p := Request.isNewRoute) hq
  simp only [Request.isNewRoute, if_true] at hcount
  simp only [Link.replied, failOn, hr, Bool.false_eq_true, if_false] at hl
  split at hl
  · cases hl
  next n hm =>
  have hn' : n = (l.pending.eraseIdx i).countP Request.isNewRoute := by
    have hm' : l.dhcp4Messages = n + 1 := hm
    have := h.counted
    omega
  split at hl
  · next h0 =>
    have hu : ({ l with
        pending := l.pending.eraseIdx i, dhcp4Messages := n, dhcp4Configured := true } :
          Link).Underway :=
      ⟨hn', h.unique, h.static, h.present, fun lease hlease =>
        ⟨(h.progress lease hlease).1, .inr (.inr rfl)⟩⟩
    exact ⟨hu.checkReady hl, .of_checkReady hu hl⟩
  · next h0 =>
    cases hl
    refine ⟨⟨hn', h.unique, h.static, h.present, fun lease hlease => ?_⟩, hn⟩
    exact ⟨(h.progress lease hlease).1, .inr (.inl (Nat.pos_of_ne_zero h0))⟩

/-- The reply to any other request is only taken off the list. -/
theorem Underway.erase {i : Nat} {q : Request} {l : Link} (h : l.Underway)
    (hq : l.pending[i]? = some q) (hr : q.isNewRoute = false) (ha : ∀ a, q ≠ .newAddr a) :
    ({ l with pending := l.pending.eraseIdx i } : Link).Underway := by
  have hcount := countP_eraseIdx (p := Request.isNewRoute) hq
  rw [hr] at hcount
  refine ⟨h.counted.trans hcount, h.unique, h.static, h.present, fun lease hlease => ?_⟩
  obtain ⟨hne, hp⟩ := h.progress lease hlease
  exact ⟨hne, hp.imp (fun hmem => mem_eraseIdx_of_ne hq hmem (ha _)) id⟩

theorem Underway.replied {io : Io} {r : Int} {q : Request} {i : Nat} {l l' : Link}
    (hio : ∀ c, 0 ≤ io.result c) (hr : isError r eexist = false) (h : l.Underway)
    (hn : l.Noticed) (hq : l.pending[i]? = some q)
    (hl : Link.replied io r { l with pending := l.pending.eraseIdx i } q = .ok l') :
    l'.Underway ∧ l'.Noticed := by
  have hn' : ({ l with pending := l.pending.eraseIdx i } : Link).Noticed := hn
  cases q with
  | newAddr a =>
    refine ⟨h.replied_newAddr hio hr hq hl, ?_⟩
    simp only [Link.replied, failOn, hr, Bool.false_eq_true, if_false] at hl
    obtain ⟨lease, qs, m, -, -, ⟨fs, hm⟩, -, hall⟩ := setDhcpRoutes_ok hl
    obtain ⟨rfl, rfl⟩ := hall hio
    rw [hm]
    exact hn
  | newRoute route => exact h.replied_newRoute hr hq hl hn
  | delRoute route =>
    cases hl
    exact ⟨(h.erase hq rfl (by simp)).noted (note_noted ..), hn'.noted (note_noted ..)⟩
  | delAddr a =>
    cases hl
    exact ⟨(h.erase hq rfl (by simp)).noted (note_noted ..), hn'.noted (note_noted ..)⟩
  | setLink =>
    cases hl
    exact ⟨(h.erase hq rfl (by simp)).noted (note_noted ..), hn'.noted (note_noted ..)⟩

/-- A link that is on its way and has not missed its arrival. -/
structure OnCourse (l : Link) : Prop where
  underway : l.Underway
  noticed : l.Noticed

theorem OnCourse.noted {l l' : Link} (h : l.OnCourse) (hn : l.Noted l') : l'.OnCourse :=
  ⟨h.underway.noted hn, h.noticed.noted hn⟩

theorem OnCourse.stopped {io : Io} {l : Link} (h : l.OnCourse) : (l.stopped io).OnCourse :=
  ⟨h.underway.stopped, h.noticed.stopped⟩

theorem OnCourse.readded {l : Link} (h : l.OnCourse) : l.readded = l :=
  if_neg h.underway.present

end Link

/-! ## Runs -/

theorem Remade.onCourse {io : Nat → Io} {m : LinkMessage} {s : Iface} {l : Link}
    (h : Remade io m s l) (hs : s.userdata.OnCourse) : l.OnCourse := by
  cases h with
  | same => rwa [hs.readded]
  | idle _ =>
    rw [hs.readded]
    exact ⟨{ hs.underway with }, hs.noticed⟩
  | @restarted mac _ _ _ hn =>
    rw [hs.readded] at hn
    have hmac : ({ s.userdata with mac := mac } : Link).OnCourse :=
      ⟨{ hs.underway with }, hs.noticed⟩
    exact hmac.stopped.noted hn

theorem Gained.onCourse {io : Io} {l l' : Link} (h : Gained io l l')
    (hio : ∀ c, 0 ≤ io.result c) (hl : l.OnCourse) : l'.OnCourse := by
  have hlog : (l.log .acquiringLease).OnCourse := ⟨{ hl.underway with }, hl.noticed⟩
  cases h with
  | ignored _ => exact hl
  | started _ hn => exact hlog.noted hn
  | failed _ _ hneg => exact absurd hio hneg

theorem Effect.onCourse {s : Iface} {c : Occurrence} {l : Link} (h : Effect c.io s c.event l)
    (hc : Smooth (some s) c) (hs : s.userdata.OnCourse) : l.OnCourse := by
  obtain ⟨io, e, sent, out⟩ := c
  have hio := hc.calls 0
  cases h with
  | carrierSame hl _ =>
    have := hl.onCourse hs
    exact ⟨{ this.underway with }, this.noticed⟩
  | @carrierGained m l _ hl _ _ hg =>
    have := hl.onCourse hs
    exact hg.onCourse hio ⟨{ this.underway with }, this.noticed⟩
  | @carrierLost m l hl _ _ =>
    have := hl.onCourse hs
    have hlog : (Link.log .lostCarrier { l with carrier := m.carrier }).OnCourse :=
      ⟨{ this.underway with }, this.noticed⟩
    exact hlog.stopped
  | delLink => exact absurd hc.event (by simp [Event.isSmooth])
  | newAddr h => exact ⟨hs.underway.newAddr h, hs.noticed.newAddr hs.underway h⟩
  | delAddr h => exact ⟨hs.underway.delAddr h, hs.noticed.delAddr hs.underway h⟩
  | reply hq h =>
    obtain ⟨hu, hn⟩ :=
      hs.underway.replied hio (by simpa [Event.isSmooth] using hc.event) hs.noticed hq h
    exact ⟨hu, hn⟩
  | ignored hn => exact hs.noted hn
  | @acknowledged m lease _ _ _ ha _ hn hx =>
    have hl := hs.noted hn
    obtain ⟨hneg, -⟩ | ⟨u1, u2, rfl⟩ := hx
    · exact absurd (hio _) (Int.not_le.mpr hneg)
    · -- the two times are no part of the routes
      have hr : lease.routes ≠ [] := by simpa [Event.isSmooth, ha] using hc.event
      exact ⟨hl.underway.notified hio hr, hl.noticed.notified hio⟩
  | resend hn => exact hs.noted hn
  | t1 hn => exact hs.noted hn
  | t2 hn => exact hs.noted hn
  | expire hn => exact hs.stopped.noted hn

theorem Added.onCourse {m : LinkMessage} {l : Link} (h : Added m l) : l.OnCourse := by
  have hf := h.fresh
  have hcount : l.dhcp4Messages = l.pending.countP Request.isNewRoute := by
    rw [hf.messages, eq_comm, List.countP_eq_zero]
    intro q hq
    simp [hf.pending q hq, Request.isNewRoute]
  refine ⟨⟨hcount, hf.unique, ?_, ?_, by simp [hf.lease]⟩,
    fun _ hc => by simp [hf.unconfigured] at hc⟩
  · intro hst
    cases h with
    | unmanaged _ _ _ hc => simp [hc] at hst
    | failed _ _ _ hc => simp [hc] at hst
    | settingRoutes hm _ hs _ => exact ⟨hf.managed.trans hm, .inl hs⟩
  · cases h with
    | unmanaged _ _ hs _ => simp [hs]
    | failed _ _ hs _ => simp [hs]
    | settingRoutes _ _ hs _ => simp [hs]

/-- If every lease brings a route and the kernel grants all requests, a link that holds a lease
whose address is confirmed and has no route outstanding is configured; once its addresses are
ready it has reached the state `CONFIGURED`. -/
theorem configured_of_confirmed {os : List Occurrence} {s : Iface} {lease : Lease}
    (h : Run (Guarded Smooth LinkStep) none os (some s))
    (hl : s.userdata.dhcpLease = some lease)
    (ha : .newAddr lease.addr ∉ s.userdata.pending)
    (hr : ∀ r, .newRoute r ∉ s.userdata.pending) :
    s.userdata.dhcp4Configured = true ∧
      (s.userdata.staticConfigured = true → s.userdata.addresses.all (·.ready) = true →
        s.userdata.state = .configured) := by
  have hs : s.userdata.OnCourse := by
    refine Run.invariant (I := fun o => ∀ s, o = some s → s.userdata.OnCourse)
      ?_ h (by simp) s rfl
    intro o c o' ho hstep
    refine hstep.2.keeps (fun l hl => ⟨{ hl.underway with }, hl.noticed⟩)
      (fun m l ha => ha.onCourse) fun s l hs heff => ?_
    exact heff.onCourse (hs ▸ hstep.1) (ho s hs)
  have hzero : s.userdata.dhcp4Messages = 0 := by
    rw [hs.underway.counted, List.countP_eq_zero]
    rintro (_ | _ | r | _ | _) hq <;> simp [Request.isNewRoute]
    exact hr r hq
  obtain ⟨-, hp | hp | hp⟩ := hs.underway.progress lease hl
  · exact absurd hp ha
  · omega
  · exact ⟨hp, fun hst hall => hs.noticed hst hp hall⟩

/-- A lease whose address and routes the kernel confirms one after the other. -/
def confirmation (o : Options) : List (Nat × Event) :=
  acquisition o ++ [(1300000, Event.reply 0 0), (1400000, .reply 0 0), (1400000, .reply 0 0)]

theorem configured_of_confirmed_router :
    ∃ os s lease, Run (Guarded Smooth LinkStep) none os (some s) ∧
      s.userdata.dhcpLease = some lease ∧ s.userdata.pending = [] ∧
      s.userdata.dhcp4Configured = true := by
  have hex : (execute none (confirmation sampleOptions)).any (fun (_, o) => o.any fun s =>
      s.userdata.dhcpLease.isSome && s.userdata.pending = []) := by decide +kernel
  have hmeets : meets (fun o e => e.isSmooth o) none (confirmation sampleOptions) = true := by
    decide +kernel
  obtain ⟨⟨os, o⟩, ho, hs⟩ := (Option.any_eq_true _ _).mp hex
  obtain ⟨s, rfl, hp⟩ := (Option.any_eq_true _ _).mp hs
  have hrun := @execute_run_meets Smooth _ _ _ _ _ ho hmeets fun _ _ _ _ _ h =>
    ⟨fun _ _ => Int.le_refl 0, h⟩
  simp only [Bool.and_eq_true, decide_eq_true_eq] at hp
  obtain ⟨lease, hl⟩ := Option.isSome_iff_exists.mp hp.1
  exact ⟨os, s, lease, hrun, hl, hp.2,
    (configured_of_confirmed hrun hl (by simp [hp.2]) (by simp [hp.2])).1⟩

/-- A lease with neither a router nor a static route: all replies are there, and the link is not
configured. -/
theorem routeless_lease_not_configured :
    ∃ os s, Run LinkStep none os (some s) ∧ s.userdata.dhcpLease ≠ none ∧
      s.userdata.pending = [] ∧ s.userdata.staticConfigured = true ∧
      s.userdata.addresses.all (·.ready) = true ∧ s.userdata.dhcp4Configured = false ∧
      s.userdata.state ≠ .configured := by
  have hex : (execute none (acquisition { sampleOptions with router := 0 } ++
      [(1300000, .reply 0 0), (1300000, .newAddr ⟨.inet 0xc0a80064, 24⟩ true)])).any (fun (_,
        o) =>
        o.any fun s => s.userdata.dhcpLease.isSome && s.userdata.pending = [] &&
          s.userdata.staticConfigured && s.userdata.addresses.all (·.ready) &&
          !s.userdata.dhcp4Configured && s.userdata.state ≠ .configured) := by decide +kernel
  obtain ⟨os, o, hrun, ho⟩ := execute_reaches hex
  obtain ⟨s, rfl, hp⟩ := (Option.any_eq_true _ _).mp ho
  simp only [Bool.and_eq_true, Bool.not_eq_true', decide_eq_true_eq] at hp
  obtain ⟨⟨⟨⟨⟨hl, hpend⟩, hst⟩, hall⟩, hconf⟩, hstate⟩ := hp
  exact ⟨os, s, hrun, Option.isSome_iff_ne_none.mp hl, hpend, hst, hall, hconf, hstate⟩

end CarFi.Roamingd

import CarFi.Roamingd.Daemon

/-!
# What an event does to the link

The client touches the link only through `dhcp4_handler`. Here the functions of the daemon are
projected to the link: for each of them a function on links alone, and for the steps of the
client that nothing but their failures is logged. `Effect` sums up the outcome event by event;
the invariants of the link are proved over it.
-/
namespace CarFi.Roamingd

/-! ## The link alone -/

namespace Link

/-- `l'` is `l` after some failures have been logged. -/
def Noted (l l' : Link) : Prop :=
  ∃ fs : List (Failure × Int), l' = { l with out := l.out ++ fs.map fun p => .failure p.1 p.2 }

theorem Noted.refl (l : Link) : Noted l l := ⟨[], by simp⟩

theorem Noted.log {l l' : Link} (h : Noted l l') (f : Failure) (r : Int) :
    Noted l (l'.log (.failure f r)) := by
  obtain ⟨fs, rfl⟩ := h
  exact ⟨fs ++ [(f, r)], by simp [Link.log]⟩

theorem Noted.trans {l l' l'' : Link} (h : Noted l l') (h' : Noted l' l'') : Noted l l'' := by
  obtain ⟨fs, rfl⟩ := h
  obtain ⟨gs, rfl⟩ := h'
  exact ⟨fs ++ gs, by simp⟩

/-- The link's part of `link_enter_failed`. -/
def fail (l : Link) : Link :=
  if l.state.isDown then l else { l.log .failed with state := .failed }

def failWith (f : Failure) (r : Int) (l : Link) : Link := (l.log (.failure f r)).fail

/-- The address of a lease is requested, or the link fails. -/
def updateAddress (io : Io) (lease : Lease) (l : Link) : Link :=
  if io.result .addressConfigure < 0 then
    l.failWith .updateAddress (io.result .addressConfigure)
  else (l.request (.newAddr lease.addr)).addressAdd lease.addr

def renewed (io : Io) (lease : Option Lease) (l : Link) : Link :=
  match lease with
  | none => l.failWith .noLeaseRenewed (-eaddrnotavail)
  | some lease =>
    updateAddress io lease { l with dhcp4Configured := false, dhcpLease := some lease }

def acquired (io : Io) (lease : Option Lease) (l : Link) : Link :=
  match lease with
  | none => l.failWith .noLeaseAcquired (-eaddrnotavail)
  | some lease =>
    updateAddress io lease
      { l with out := l.out ++ leaseLines lease, dhcpLease := some lease }

def lost (io : Io) (l : Link) : Link :=
  match l.dhcpLease with
  | none => l
  | some lease => l.leaseLost io lease

/-- The stop or the expiry of the client reaches a link that is up. -/
def stopped (io : Io) (l : Link) : Link := if l.state.isDown then l else l.lost io

/-- `dhcp4_handler` on the link, with the lease of which the client tells. -/
def notified (io : Io) (e : ClientEvent) (lease : Option Lease) (l : Link) : Link :=
  if l.state.isDown then l
  else
    match e with
    | .expired | .stop => l.lost io
    | .ipChange => (l.lost io).acquired io lease
    | .renew => l.renewed io lease
    | .ipAcquire => l.acquired io lease
    | .error r => l.log (.failure .clientFailed r)

/-- `link_set_dhcp_routes` on the link. -/
def setDhcpRoutes (io : Io) (l : Link) : Except Abort Link :=
  match l.dhcpLease with
  | none => .error .setDhcpRoutes
  | some lease =>
    let static := setStaticRoutes io 0 lease.staticRoutes
    if lease.router = 0 then .ok (static l)
    else if io.result .hostRoute < 0 then
      .ok (l.log (.failure .hostRoute (io.result .hostRoute)))
    else if io.result .defaultRoute < 0 then
      .ok ((l.requestRoute lease.hostRoute).failWith .routes (io.result .defaultRoute))
    else .ok (static ((l.requestRoute lease.hostRoute).requestRoute lease.defaultRoute))

/-- The link fails on a reply with an error, unless there was nothing to do. -/
def failOn (f : Failure) (r : Int) (l : Link) : Link :=
  if Attached.isError r eexist then l.failWith f r else l

/-- A failure is logged while the link is up. -/
def note (f : Failure) (r forgiven : Int) (l : Link) : Link :=
  if l.state.isDown then l
  else if Attached.isError r forgiven then l.log (.failure f r)
  else l

/-- The reply to a request, on the link. -/
def replied (io : Io) (r : Int) (l : Link) : Request → Except Abort Link
  | .newAddr _ => setDhcpRoutes io (l.failOn .setAddress r)
  | .newRoute _ =>
    match l.dhcp4Messages with
    | 0 => .error .routeHandler
    | n + 1 =>
      let l := failOn .setRoute r { l with dhcp4Messages := n }
      if n = 0 then checkReady { l with dhcp4Configured := true } else .ok l
  | .delRoute _ => .ok (l.note .dropRoute r esrch)
  | .delAddr _ => .ok (l.note .dropAddress r eaddrnotavail)
  | .setLink => .ok (l.note .bringUp r 0)

/-- `link_drop` on the link. -/
def dropped (l : Link) : Link :=
  if l.state = .linger then l else { l.log .linkRemoved with state := .linger }

/-! ### Frames -/

/-- Requests that are sent together. -/
def requestAll (qs : List Request) (l : Link) : Link :=
  { l with pending := l.pending ++ qs, sent := l.sent ++ qs }

/-- DHCP routes that are requested together. -/
def requestRoutes (rs : List Route) (l : Link) : Link :=
  { l.requestAll (rs.map .newRoute) with dhcp4Messages := l.dhcp4Messages + rs.length }

/-- The requests that `dhcp_lease_lost` gets out. -/
def removed (io : Io) (lease : Lease) : List Request :=
  ((removals lease).filter fun p => 0 ≤ io.result p.1).map Prod.snd

theorem leaseLost_eq (io : Io) (lease : Lease) (l : Link) :
    l.leaseLost io lease = { (l.log .leaseLost).requestAll (removed io lease) with
      dhcpLease := none, dhcp4Configured := false } := by
  have hfold (ps : List (Call × Request)) (l : Link) :
      ps.foldl (fun l p => if io.result p.1 < 0 then l else l.request p.2) l =
        l.requestAll ((ps.filter fun p => 0 ≤ io.result p.1).map Prod.snd) := by
    induction ps generalizing l with
    | nil => simp [requestAll]
    | cons p ps ih =>
      rw [List.foldl_cons, ih]
      by_cases hp : io.result p.1 < 0
      · simp [hp]
      · simp [hp, Int.not_lt.mp hp, request, requestAll]
  simp only [leaseLost, hfold, removed]

theorem removed_isDel {io : Io} {lease : Lease} {q : Request} (h : q ∈ removed io lease) :
    (∃ r, q = .delRoute r) ∨ ∃ a, q = .delAddr a := by
  simp only [removed, removals, List.mem_map, List.mem_filter, List.mem_append] at h
  obtain ⟨p, ⟨(hp | hp) | hp, -⟩, rfl⟩ := h
  · obtain ⟨i, hi, rfl⟩ := List.mem_mapIdx.mp hp
    exact .inl ⟨_, rfl⟩
  · split at hp
    · cases hp
    · simp only [List.mem_cons, List.not_mem_nil, or_false] at hp
      obtain rfl | rfl := hp
      · exact .inl ⟨_, rfl⟩
      · exact .inl ⟨_, rfl⟩
  · simp only [List.mem_singleton] at hp
    exact .inr ⟨_, by rw [hp]⟩

theorem lost_dhcpLease (io : Io) (l : Link) : (l.lost io).dhcpLease = none := by
  unfold lost
  split
  · assumption
  · rfl

theorem fail_frame (l : Link) :
    ∃ st o, l.fail = { l with state := st, out := o } ∧ (st = l.state ∨ st = .failed) := by
  unfold fail
  split
  · exact ⟨_, _, rfl, .inl rfl⟩
  · exact ⟨_, _, rfl, .inr rfl⟩

theorem failWith_frame (f : Failure) (r : Int) (l : Link) :
    ∃ st o, l.failWith f r = { l with state := st, out := o } ∧
      (st = l.state ∨ st = .failed) :=
  fail_frame _

theorem failOn_frame (f : Failure) (r : Int) (l : Link) :
    ∃ st o, l.failOn f r = { l with state := st, out := o } ∧
      (st = l.state ∨ Attached.isError r eexist = true ∧ st = .failed) := by
  unfold failOn
  split
  · next he =>
    obtain ⟨st, o, h, hst⟩ := failWith_frame f r l
    exact ⟨st, o, h, hst.imp id fun h => ⟨he, h⟩⟩
  · exact ⟨_, _, rfl, .inl rfl⟩

theorem note_noted (f : Failure) (r forgiven : Int) (l : Link) :
    l.Noted (l.note f r forgiven) := by
  unfold note
  split
  · exact .refl l
  · split
    · exact (Noted.refl l).log f r
    · exact .refl l

theorem addressAdd_frame (a : Addr) (l : Link) :
    ∃ own foreign, l.addressAdd a = { l with addresses := own, addressesForeign := foreign } := by
  unfold addressAdd
  split
  · exact ⟨_, _, rfl⟩
  · split <;> exact ⟨_, _, rfl⟩

theorem addressAdd_unique {a : Addr} {l : Link} (h : (l.addresses.map AddrEntry.addr).Nodup) :
    ((l.addressAdd a).addresses.map AddrEntry.addr).Nodup := by
  unfold addressAdd
  split
  · exact h
  next ha =>
  have hna : a ∉ l.addresses.map AddrEntry.addr := by
    simpa using ha
  split
  · next e he =>
    have hea : e.addr = a := by simpa using List.find?_some he
    simpa [List.nodup_append, h, hea] using hna
  · simpa [List.nodup_append, h] using hna

/-- A check succeeds if it finds nothing to do or takes the link to `CONFIGURED`. -/
theorem checkReady_frame {l l' : Link} (h : l.checkReady = .ok l') :
    l' = l ∨ l.state = .settingRoutes ∧
      l' = { l.log .configured with state := .configured } := by
  unfold checkReady at h
  split at h
  · split at h
    · next hs =>
      cases h
      exact .inr ⟨hs, rfl⟩
    · cases h
  · cases h
    exact .inl rfl

theorem checkReady_isDown {l l' : Link} (h : l.checkReady = .ok l') (hd : l.state.isDown = true) :
    l'.state.isDown = true := by
  obtain rfl | ⟨hs, -⟩ := checkReady_frame h
  · exact hd
  · rw [hs] at hd
    cases hd

theorem setReady_frame (a : Addr) (ready : Bool) (l : Link) :
    ∃ own foreign, l.setReady a ready =
      { l with addresses := own, addressesForeign := foreign } := by
  unfold setReady
  dsimp only
  split <;> exact ⟨_, _, rfl⟩

/-- A report about an address changes the tables of addresses, and may configure the link. -/
theorem newAddr_frame {a : Addr} {ready : Bool} {l l' : Link} (h : l.newAddr a ready = .ok l') :
    ∃ own foreign, let m := { l with addresses := own, addressesForeign := foreign }
      l' = m ∨ l.state = .settingRoutes ∧
        l' = { m.log .configured with state := .configured } := by
  unfold newAddr at h
  split at h
  · obtain ⟨own, foreign, hs⟩ := setReady_frame a ready l
    rw [hs] at h
    split at h
    · exact ⟨own, foreign, checkReady_frame h⟩
    · cases h
      exact ⟨own, foreign, .inl rfl⟩
  · refine ⟨l.addresses, l.addressesForeign ++ [⟨a, ready⟩], ?_⟩
    dsimp only at h
    split at h
    · exact checkReady_frame h
    · cases h
      exact .inl rfl

theorem delAddr_frame {a : Addr} {l l' : Link} (h : l.delAddr a = .ok l') :
    ∃ own foreign, let m := { l with addresses := own, addressesForeign := foreign }
      l' = m ∨ l.state = .settingRoutes ∧
        l' = { m.log .configured with state := .configured } := by
  unfold delAddr at h
  split at h
  · cases h
    exact ⟨_, _, .inl rfl⟩
  next e _ =>
  -- the entry is taken out of the table that has it
  obtain ⟨own, foreign, hm⟩ : ∃ own foreign, (if l.addresses.any (·.addr = a) then
      { l with addresses := l.addresses.filter (·.addr ≠ a) }
      else { l with addressesForeign := l.addressesForeign.filter (·.addr ≠ a) }) =
        { l with addresses := own, addressesForeign := foreign } := by
    split <;> exact ⟨_, _, rfl⟩
  dsimp only at h
  rw [hm] at h
  refine ⟨own, foreign, ?_⟩
  split at h
  · cases h
    exact .inl rfl
  · exact checkReady_frame h

theorem updateAddress_frame (io : Io) (lease : Lease) (l : Link) :
    ∃ st own foreign p t o, l.updateAddress io lease = { l with
      state := st, addresses := own, addressesForeign := foreign, pending := p, sent := t,
      out := o } := by
  unfold updateAddress
  split
  · obtain ⟨st, o, h, -⟩ := failWith_frame .updateAddress (io.result .addressConfigure) l
    exact ⟨_, _, _, _, _, _, h⟩
  · obtain ⟨own, foreign, h⟩ := addressAdd_frame lease.addr (l.request (.newAddr lease.addr))
    exact ⟨_, _, _, _, _, _, h⟩

theorem setStaticRoutes_noted (io : Io) (i : Nat) (rs : List StaticRoute) (l : Link) :
    ∃ qs, qs <+: rs.map Lease.staticRouteOf ∧
      (l.requestRoutes qs).Noted (setStaticRoutes io i rs l) ∧
      ((∀ c, 0 ≤ io.result c) → qs = rs.map Lease.staticRouteOf) := by
  induction rs generalizing i l with
  | nil =>
    exact ⟨[], by simp, ⟨[], by simp [requestRoutes, requestAll, setStaticRoutes]⟩, by simp⟩
  | cons r rs ih =>
    unfold setStaticRoutes
    split
    · next hneg =>
      refine ⟨[], by simp, ⟨[(.staticRoute, io.result (.staticRoute i))],
        by simp [requestRoutes, requestAll, log]⟩, fun h => ?_⟩
      exact absurd (h _) (Int.not_le.mpr hneg)
    · obtain ⟨qs, hp, ⟨fs, hn⟩, hall⟩ :=
        ih (i + 1) (l.requestRoute (Lease.staticRouteOf r))
      refine ⟨Lease.staticRouteOf r :: qs,
        by simpa using hp, ⟨fs, ?_⟩, fun h => by simp [hall h]⟩
      rw [hn]
      simp [requestRoutes, requestRoute, requestAll, request]
      omega

/-- The routes of the lease are requested in order, up to the first call that fails. -/
theorem setDhcpRoutes_ok {io : Io} {l l' : Link} (h : l.setDhcpRoutes io = .ok l') :
    ∃ lease qs m, l.dhcpLease = some lease ∧ qs <+: lease.routes ∧
      (l.requestRoutes qs).Noted m ∧ (l' = m ∨ l' = m.fail) ∧
      ((∀ c, 0 ≤ io.result c) → qs = lease.routes ∧ l' = m) := by
  unfold setDhcpRoutes at h
  split at h
  · cases h
  next lease hl =>
  refine ⟨lease, ?_⟩
  dsimp only at h
  split at h
  · next h0 =>
    cases h
    obtain ⟨qs, hp, hn, hall⟩ := setStaticRoutes_noted io 0 lease.staticRoutes l
    refine ⟨qs, _, hl, by simpa [Lease.routes, h0] using hp, hn, .inl rfl, fun h => ?_⟩
    exact ⟨by simpa [Lease.routes, h0] using hall h, rfl⟩
  next h0 =>
  split at h
  · next hneg =>
    cases h
    refine ⟨[], _, hl, by simp, ⟨[(.hostRoute, io.result .hostRoute)],
      by simp [requestRoutes, requestAll, log]⟩, .inl rfl, fun h =>
        absurd (h _) (Int.not_le.mpr hneg)⟩
  split at h
  · next hneg =>
    cases h
    refine ⟨[lease.hostRoute], (l.requestRoute lease.hostRoute).log _, hl,
      by simp [Lease.routes, h0], ⟨[(.routes, io.result .defaultRoute)], ?_⟩, .inr rfl,
      fun h => absurd (h _) (Int.not_le.mpr hneg)⟩
    simp [requestRoutes, requestRoute, requestAll, request, log]
  · cases h
    obtain ⟨qs, hp, ⟨fs, hn⟩, hall⟩ := setStaticRoutes_noted io 0 lease.staticRoutes
      ((l.requestRoute lease.hostRoute).requestRoute lease.defaultRoute)
    refine ⟨lease.hostRoute :: lease.defaultRoute :: qs, _, hl,
      by simpa [Lease.routes, h0] using hp, ⟨fs, ?_⟩, .inl rfl,
      fun h => ⟨by simp [Lease.routes, h0, hall h], rfl⟩⟩
    rw [hn]
    simp [requestRoutes, requestRoute, requestAll, request]
    omega

/-- No reply touches the lease. -/
theorem replied_frame {io : Io} {r : Int} {q : Request} {l l' : Link}
    (h : l.replied io r q = .ok l') :
    ∃ st n c p t o, l' = { l with
      state := st, dhcp4Messages := n, dhcp4Configured := c, pending := p, sent := t,
      out := o } := by
  have hnote (f : Failure) (r x : Int) : ∃ st n c p t o, l.note f r x = { l with
      state := st, dhcp4Messages := n, dhcp4Configured := c, pending := p, sent := t,
      out := o } := by
    obtain ⟨fs, hn⟩ := note_noted f r x l
    exact ⟨_, _, _, _, _, _, hn⟩
  cases q with
  | newAddr a =>
    obtain ⟨st, o, hf, -⟩ := failOn_frame .setAddress r l
    simp only [replied, hf] at h
    obtain ⟨lease, qs, m, -, -, ⟨fs, rfl⟩, rfl | rfl, -⟩ := setDhcpRoutes_ok h
    · exact ⟨_, _, _, _, _, _, rfl⟩
    · obtain ⟨st', o', hf', -⟩ :=
        fail_frame { requestRoutes qs { l with state := st, out := o } with
        out := _ }
      rw [hf']
      exact ⟨_, _, _, _, _, _, rfl⟩
  | newRoute route =>
    simp only [replied] at h
    split at h
    · cases h
    next n _ =>
    obtain ⟨st, o, hf, -⟩ := failOn_frame .setRoute r { l with dhcp4Messages := n }
    rw [hf] at h
    split at h
    · obtain rfl | ⟨-, rfl⟩ := checkReady_frame h <;> exact ⟨_, _, _, _, _, _, rfl⟩
    · cases h
      exact ⟨_, _, _, _, _, _, rfl⟩
  | delRoute route => cases h; exact hnote ..
  | delAddr a => cases h; exact hnote ..
  | setLink => cases h; exact hnote ..

end Link

namespace Attached

variable (io : Io) (s : Iface)

@[simp] theorem mapLink_userdata (f : Link → Link) : (s.mapLink f).userdata = f s.userdata := rfl

@[simp] theorem mapLink_client (f : Link → Link) : (s.mapLink f).client = s.client := rfl

@[simp] theorem setClient_userdata {υ : Type} (f : DhcpClient → DhcpClient) (s : Attached υ) :
    (s.setClient f).userdata = s.userdata := rfl

@[simp] theorem setClient_client {υ : Type} (f : DhcpClient → DhcpClient) (s : Attached υ) :
    (s.setClient f).client = f s.client := rfl

@[simp] theorem logLink_userdata (m : LogMsg) : (s.logLink m).userdata = s.userdata.log m := rfl

@[simp] theorem enterFailed_userdata : s.enterFailed.userdata = s.userdata.fail := by
  unfold enterFailed Link.fail
  split <;> rfl

@[simp] theorem failWith_userdata (f : Failure) (r : Int) :
    (s.failWith f r).userdata = s.userdata.failWith f r :=
  enterFailed_userdata _

theorem updateAddress_userdata (lease : Lease) :
    (updateAddress io lease s).userdata = s.userdata.updateAddress io lease := by
  unfold updateAddress Link.updateAddress Link.addressConfigure
  by_cases h : io.result .addressConfigure < 0 <;> simp [h]

theorem leaseRenew_userdata :
    (leaseRenew io s).userdata = s.userdata.renewed io s.client.getLease := by
  unfold leaseRenew Link.renewed
  cases s.client.getLease with
  | none => exact failWith_userdata ..
  | some lease => exact updateAddress_userdata ..

theorem leaseAcquired_userdata :
    (leaseAcquired io s).userdata = s.userdata.acquired io s.client.getLease := by
  unfold leaseAcquired Link.acquired
  cases s.client.getLease with
  | none => exact failWith_userdata ..
  | some lease => exact updateAddress_userdata ..

theorem loseLease_userdata : (loseLease io s).userdata = s.userdata.lost io := by
  unfold loseLease Link.lost
  cases s.userdata.dhcpLease <;> rfl

@[simp] theorem loseLease_client : (loseLease io s).client = s.client := by
  unfold loseLease
  split <;> rfl

theorem map_ok_client {x : Except Abort Link} {s t : Iface}
    (h : (x.map fun l => ({ s with userdata := l } : Iface)) = .ok t) : t.client = s.client := by
  cases x with
  | error a => cases h
  | ok l => cases h; rfl

theorem dhcp4Handler_userdata (e : ClientEvent) :
    (dhcp4Handler io e s).userdata = s.userdata.notified io e s.client.getLease := by
  unfold dhcp4Handler Link.notified
  split
  · rfl
  · cases e <;>
      simp [leaseRenew_userdata, leaseAcquired_userdata, loseLease_userdata]

theorem setDhcpRoutes_userdata :
    (setDhcpRoutes io s).map userdata = s.userdata.setDhcpRoutes io := by
  unfold setDhcpRoutes Link.setDhcpRoutes
  cases s.userdata.dhcpLease with
  | none => rfl
  | some lease =>
    by_cases h0 : lease.router = 0
    · simp [h0, Except.map]
    by_cases h1 : io.result .hostRoute < 0
    · simp [h0, h1, Except.map]
    by_cases h2 : io.result .defaultRoute < 0 <;> simp [h0, h1, h2, Except.map]

theorem map_userdata (x : Except Abort Link) :
    (x.map fun l => ({ s with userdata := l } : Iface)).map userdata = x := by
  cases x <;> rfl

theorem routeHandler_userdata (r : Int) (route : Route) :
    (routeHandler r s).map userdata = s.userdata.replied io r (.newRoute route) := by
  unfold routeHandler Link.replied Link.failOn
  cases s.userdata.dhcp4Messages with
  | zero => rfl
  | succ n =>
    by_cases he : isError r eexist <;> by_cases hn : n = 0 <;>
      simp only [he, hn, if_true, if_false, Bool.false_eq_true]
    · rw [failWith_userdata]
      exact map_userdata _ _
    · exact congrArg Except.ok (failWith_userdata ..)
    · exact map_userdata _ _
    · rfl

theorem noteFailure_userdata (f : Failure) (r forgiven : Int) :
    (noteFailure f r forgiven s).userdata = s.userdata.note f r forgiven := by
  unfold noteFailure Link.note
  split
  · rfl
  · split <;> rfl

theorem handleReply_userdata (r : Int) (q : Request) :
    (s.handleReply io r q).map userdata = s.userdata.replied io r q := by
  cases q with
  | newAddr a =>
    refine (setDhcpRoutes_userdata io _).trans ?_
    simp only [Link.replied, Link.failOn]
    split <;> simp
  | newRoute route => exact routeHandler_userdata io s r route
  | delRoute route => simp [handleReply, Link.replied, Except.map, noteFailure_userdata]
  | delAddr a => simp [handleReply, Link.replied, Except.map, noteFailure_userdata]
  | setLink => simp [handleReply, Link.replied, Except.map, noteFailure_userdata]

theorem linkDrop_userdata : s.linkDrop.userdata = s.userdata.dropped := by
  unfold linkDrop Link.dropped
  split <;> rfl

end Attached

/-! ## The client on its own

All that a client does by itself, apart from the stop, the expiry and the outcome of an
acknowledgement, is to report errors. -/

namespace Attached

section
variable {υ : Type} {cb : ClientEvent → Attached υ → Attached υ} {io : Io} {P : υ → Prop}
  (hcb : ∀ r (s : Attached υ), P s.userdata → P (cb (.error r) s).userdata)
include hcb

theorem initializeIoEvents_keeps {s : Attached υ} (h : P s.userdata) :
    P (initializeIoEvents cb io s).userdata := by
  unfold initializeIoEvents
  split
  · exact hcb _ _ h
  · exact h

theorem initializeTimeEvents_keeps {s : Attached υ} (h : P s.userdata) :
    P (initializeTimeEvents cb io s).userdata := by
  unfold initializeTimeEvents
  split
  · exact hcb _ _ h
  · exact h

theorem initializeEvents_keeps {s : Attached υ} (h : P s.userdata) :
    P (initializeEvents cb io s).userdata :=
  initializeTimeEvents_keeps hcb (initializeIoEvents_keeps hcb h)

theorem clientStartDelayed_keeps {s : Attached υ} (h : P s.userdata) :
    P (clientStartDelayed cb io s).2.userdata := by
  unfold clientStartDelayed
  split; · exact h
  split; · exact h
  split; · exact h
  dsimp only
  split
  · exact hcb _ _ h
  · exact initializeEvents_keeps hcb h

theorem sdDhcpClientStart_keeps {s : Attached υ} (h : P s.userdata) :
    P (sdDhcpClientStart cb io s).2.userdata :=
  clientStartDelayed_keeps hcb h

theorem resendMessage_keeps {s : Attached υ} (h : P s.userdata) :
    P (resendMessage cb io s).userdata := by
  unfold resendMessage
  split
  · split
    · exact h
    split
    · exact hcb _ _ h
    · exact h
  · split
    · exact hcb _ _ h
    · exact h
  iterate 4
    · split
      · exact hcb _ _ h
      · exact h
  · exact h
  · exact h
  · exact hcb _ _ h

theorem resendAt_keeps {n : Nat} {s : Attached υ} (h : P s.userdata) :
    P (resendAt cb io n s).userdata := by
  unfold resendAt
  split
  · exact hcb _ _ h
  · exact resendMessage_keeps hcb h

theorem clientTimeoutResend_keeps {s : Attached υ} (h : P s.userdata) :
    P (clientTimeoutResend cb io s).userdata := by
  have hstart : P (clientStart cb io (s.setClient DhcpClient.reset)).2.userdata :=
    clientStartDelayed_keeps hcb h
  unfold clientTimeoutResend
  split
  · exact hcb _ _ h
  split
  · exact resendAt_keeps hcb h
  · exact resendAt_keeps hcb h
  · dsimp only
    split
    · exact hcb _ _ hstart
    · exact hstart
  iterate 5
    · exact resendAt_keeps hcb h
  · exact hcb _ _ h

theorem clientTimeoutT2_keeps {s : Attached υ} (h : P s.userdata) :
    P (clientTimeoutT2 cb io s).userdata := by
  unfold clientTimeoutT2
  dsimp only
  split
  · exact hcb _ _ h
  · exact initializeEvents_keeps hcb h

theorem clientTimeoutT1_keeps {s : Attached υ} (h : P s.userdata) :
    P (clientTimeoutT1 cb io s).userdata :=
  initializeTimeEvents_keeps hcb h

theorem refuse_keeps {s : Attached υ} (h : P s.userdata) : P (refuse cb io s).userdata := by
  have hstart : P (clientStartDelayed cb io (s.setClient DhcpClient.reset)).2.userdata :=
    clientStartDelayed_keeps hcb h
  unfold refuse
  dsimp only
  split
  · exact hcb _ _ hstart
  · exact hstart

end

/-! ## Acknowledgements -/

/-- The client after its timers have been set for a lease: the lease has its two times. -/
def Timed (l : Lease) (c c' : DhcpClient) : Prop :=
  ∃ u1 u2 d1 d2 d3, c' = { c with
    lease := some { l with t1 := u1, t2 := u2 }
    timeoutT1 := d1, timeoutT2 := d2, timeoutExpire := d3 }

theorem leaseDeadlines_lease (io : Io) (sent : Nat) (l : Lease) :
    ∃ u1 u2, (leaseDeadlines io sent l).1 = { l with t1 := u1, t2 := u2 } := by
  unfold leaseDeadlines
  dsimp only
  repeat' split
  all_goals exact ⟨_, _, rfl⟩

theorem armLeaseTimers_timed {io : Io} {expire t2 t1 : Nat} {l : Lease} {c : DhcpClient}
    (hl : ∃ u1 u2, c.lease = some { l with t1 := u1, t2 := u2 }) :
    Timed l c (armLeaseTimers io expire t2 t1 c).2 := by
  obtain ⟨u1, u2, hl⟩ := hl
  unfold armLeaseTimers
  repeat' split
  all_goals exact ⟨u1, u2, _, _, _, by rw [← hl]⟩

theorem setLeaseTimeouts_timed {io : Io} {l : Lease} {c : DhcpClient} {r : Int × DhcpClient}
    (h : setLeaseTimeouts io l c = .ok r) (hl : c.lease = some l) : Timed l c r.2 := by
  unfold setLeaseTimeouts at h
  dsimp only at h
  split at h
  · cases h
    exact ⟨l.t1, l.t2, _, _, _, by rw [← hl]⟩
  split at h
  · cases h
    exact ⟨l.t1, l.t2, _, _, _, by rw [← hl]⟩
  split at h
  · cases h
  cases h
  obtain ⟨u1, u2, hd⟩ := leaseDeadlines_lease io c.requestSent l
  obtain ⟨v1, v2, d1, d2, d3, hc⟩ : Timed l { c with
      timeoutT1 := none, timeoutT2 := none, timeoutExpire := none
      lease := some (leaseDeadlines io c.requestSent l).1 } _ :=
    armLeaseTimers_timed ⟨u1, u2, congrArg some hd⟩
  exact ⟨v1, v2, d1, d2, d3, hc⟩

/-- The client that has taken a lease and has no socket yet. -/
def takeLease (l : Lease) (c : DhcpClient) : DhcpClient :=
  { c with
    lease := some l, startDelay := 0, timeoutResend := none, receiveMessage := false
    fd := none, state := .bound, attempt := 1, lastAddr := l.address }

theorem armLeaseTimers_quiet {io : Io} (hio : ∀ c, 0 ≤ io.result c) {expire t2 t1 : Nat}
    {c : DhcpClient} : (armLeaseTimers io expire t2 t1 c).1 = 0 := by
  have hneg (c : Call) : ¬io.result c < 0 := Int.not_lt.mpr (hio c)
  simp only [armLeaseTimers, hneg, if_false]
  repeat' split
  all_goals rfl

theorem setLeaseTimeouts_quiet {io : Io} {l : Lease} {c : DhcpClient} {r : Int × DhcpClient}
    (hio : ∀ c, 0 ≤ io.result c) (h : setLeaseTimeouts io l c = .ok r) : r.1 = 0 := by
  have hneg (c : Call) : ¬io.result c < 0 := Int.not_lt.mpr (hio c)
  simp only [setLeaseTimeouts, hneg, if_false] at h
  split at h
  · cases h
    rfl
  split at h
  · cases h
  · cases h
    exact armLeaseTimers_quiet hio

/-- An acknowledgement ends in an error stop, or in the notification, before which the client may
have lost its lease again. -/
theorem acknowledge_cases {υ : Type} {cb : ClientEvent → Attached υ → Attached υ} {io : Io}
    {l : Lease} {s t : Attached υ} (h : acknowledge cb io l s = .ok t) :
    ∃ c, Timed l (takeLease l s.client) c ∧
      ((∃ r, (¬∀ c, 0 ≤ io.result c) ∧
          t = clientStop cb (.error r) { s with client := c }) ∨
        (io.result .addIo < 0 ∧
          t = clientNotify cb (notifyEvent s.client l)
            (clientStop cb (.error (io.result .addIo))
              { s with client := { c with fd := some (.udp l.address) } })) ∨
        t = clientNotify cb (notifyEvent s.client l)
          { s with client := { c with fd := some (.udp l.address), receiveMessage := true } }) := by
  unfold acknowledge at h
  dsimp only at h
  split at h
  · cases h
  next r c hr =>
  refine ⟨c, setLeaseTimeouts_timed hr rfl, ?_⟩
  split at h
  · next hneg =>
    cases h
    refine .inl ⟨r, fun hio => ?_, rfl⟩
    have hr0 : r = 0 := setLeaseTimeouts_quiet hio hr
    omega
  split at h
  · next hneg =>
    cases h
    exact .inl ⟨_, fun hio => absurd (hio _) (Int.not_le.mpr hneg), rfl⟩
  cases h
  unfold initializeIoEvents
  split
  · next hneg => exact .inr (.inl ⟨hneg, rfl⟩)
  · exact .inr (.inr rfl)

end Attached

end CarFi.Roamingd

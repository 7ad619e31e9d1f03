import CarFi.Roamingd.History

/-!
# The records of the carrier periods

The parser of roamingd logs against the daemon on any number of interfaces. The entry of an
interface follows its history: a draft is in the making while a period is open, and every
period that is finished has left one record.
-/
namespace CarFi.Roamingd

open Library Library.Printf Library.PyText Attached Analyzer

/-! ## What the parser makes of a sequence of events -/

/-- The events, at whatever times, lead from an entry to one with `P`, and none of them fails. -/
def Accepts (i : Intf) (P : RMEntry → Prop) : List RMEvent → RMEntry → Prop
  | [], e => P e
  | ev :: evs, e => ∀ ts, ∃ e', e.step ts i ev = .ok e' ∧ Accepts i P evs e'

/-- The first lease with a gateway: the only one whose address the parser sees. -/
def withGateway (ls : List Lease) : Option Lease := ls.find? fun l => l.router != 0

def dnsNames (ls : List Lease) : Option (List (List Char)) :=
  match ls.flatMap fun l => l.dns.map addressText with
  | [] => none
  | names => some names

/-- The draft has the address of the lease, if there is one. -/
def Addressed (e : RMEntry) : Option Lease → Prop
  | none => e.state = .gainedCarrier
  | some l => e.state = .getIp ∧ ∃ ts, e.infoBlk.tDhcpE = some (some ts) ∧
    e.infoBlk.tIpS = some (some ts) ∧ e.infoBlk.ip = some (some (addressText l.address)) ∧
    e.infoBlk.ipPrefix = some (some (decText (prefixlenOf l.subnetMask))) ∧
    e.infoBlk.gw = some (some (addressText l.router))

/-- The draft of an open period with the leases `ls`. -/
structure Drafted (ls : List Lease) (e : RMEntry) : Prop where
  start : ∃ ts, e.infoBlk.tDhcpS = some ts
  address : Addressed e (withGateway ls)
  server : e.infoBlk.dhcpServer = ls.getLast?.map fun l => addressText l.serverAddress
  dns : e.infoBlk.dnsServers = dnsNames ls

/-- The record of a finished period with the leases `ls`. -/
structure Recorded (i : Intf) (ls : List Lease) (blk : RMInfoBlk) : Prop where
  intf : blk.intf = i
  ip : blk.ip = (withGateway ls).map fun l => addressText l.address
  ipPrefix : blk.ipPrefix = (withGateway ls).map fun l => decText (prefixlenOf l.subnetMask)
  gw : blk.gw = (withGateway ls).map fun l => addressText l.router
  server : blk.dhcpServer = ls.getLast?.map fun l => addressText l.serverAddress
  dns : blk.dnsServers = dnsNames ls

/-- The entry between two events of the interface. -/
def InPeriod (e : RMEntry) : Option (List Lease) → Prop
  | none => e.state = .lostCarrier ∧ e.infoBlk = {}
  | some ls => Drafted ls e

structure Follows (i : Intf) (h : History) (e : RMEntry) : Prop where
  records : List.Forall₂ (Recorded i) h.finished e.infoBlkList
  period : InPeriod e h.current

/-! ## One event of the period -/

theorem accepts_start {i : Intf} {h : History} {e : RMEntry} (hf : Follows i h e)
    (hc : h.current = none) :
    Accepts i (Follows i { h with current := some [] }) [.dhcpStart] e := by
  intro ts
  have hp := hf.period
  rw [hc] at hp
  obtain ⟨hs, hb⟩ := hp
  refine ⟨_, if_pos hs, hf.records, ⟨ts, rfl⟩, rfl, ?_, ?_⟩
  · simp [hb]
  · simp [hb, dnsNames]

theorem Drafted.build {i : Intf} {ls : List Lease} {e : RMEntry} (hd : Drafted ls e) (ts : ℚ) :
    ∃ blk, e.step ts i .ipLost =
      .ok { state := .lostCarrier, infoBlkList := e.infoBlkList ++ [blk], infoBlk := {} } ∧
      Recorded i ls blk := by
  obtain ⟨⟨t₀, ht₀⟩, ha, hserver, hdns⟩ := hd
  cases hw : withGateway ls with
  | none =>
    rw [hw] at ha
    have hs : e.state ≠ .getIp := by simp [show e.state = .gainedCarrier from ha]
    refine ⟨⟨t₀, none, none, ts, none, none, none, i, e.infoBlk.dhcpServer,
      e.infoBlk.dnsServers⟩, ?_, ?_⟩
    · simp only [RMEntry.step, if_neg hs, RMDraft.build, ht₀]
    · constructor <;> simp [hw, hserver, hdns]
  | some l =>
    rw [hw] at ha
    obtain ⟨hs, ts', h₁, h₂, h₃, h₄, h₅⟩ := ha
    refine ⟨⟨t₀, some ts', some ts', ts, some (addressText l.address),
      some (decText (prefixlenOf l.subnetMask)), some (addressText l.router), i,
      e.infoBlk.dhcpServer, e.infoBlk.dnsServers⟩, ?_, ?_⟩
    · simp only [RMEntry.step, if_pos hs, RMDraft.build, ht₀, h₁, h₂, h₃, h₄, h₅]
    · constructor <;> simp [hw, hserver, hdns]

theorem accepts_lost {i : Intf} {h : History} {e : RMEntry} {ls : List Lease}
    (hf : Follows i h e) (hc : h.current = some ls) :
    Accepts i (Follows i { current := none, finished := h.finished ++ [ls] }) [.ipLost] e := by
  intro ts
  have hp := hf.period
  rw [hc] at hp
  obtain ⟨blk, hstep, hrec⟩ := Drafted.build (i := i) hp ts
  exact ⟨_, hstep, List.rel_append hf.records (.cons hrec .nil), rfl, rfl⟩

/-! ## A lease -/

theorem withGateway_concat (ls : List Lease) (l : Lease) :
    withGateway (ls ++ [l]) = (withGateway ls).or (if l.router = 0 then none else some l) := by
  by_cases h : l.router = 0 <;> simp [withGateway, List.find?_append, h]

theorem withGateway_eq_none {ls : List Lease} (h : ∀ l ∈ ls, l.router = 0) :
    withGateway ls = none := by
  simpa [withGateway] using h

theorem leaseEvents_eq (l : Lease) :
    leaseEvents l = (LogMsg.address l).event.toList ++
      RMEvent.dhcpServer (addressText l.serverAddress) ::
        l.dns.map fun a => .dnsServer (addressText a) := by
  have hdns (as : List InAddr) (f : Nat → Nat) :
      (as.mapIdx fun n => LogMsg.dnsServer (f n)).filterMap LogMsg.event =
        as.map fun a => .dnsServer (addressText a) := by
    induction as generalizing f with
    | nil => rfl
    | cons a as ih =>
      rw [List.mapIdx_cons, List.map_cons, ← ih fun n => f (n + 1)]
      rfl
  rw [leaseEvents, Link.leaseLines, List.filterMap_cons, ← hdns l.dns id]
  cases (LogMsg.address l).event <;> rfl

/-- The servers only go into the draft. -/
theorem accepts_dns {i : Intf} {P : RMEntry → Prop} (as : List InAddr) {e : RMEntry}
    (h : P { e with infoBlk := { e.infoBlk with
      dnsServers := if as = [] then e.infoBlk.dnsServers
        else some (e.infoBlk.dnsServers.getD [] ++ as.map addressText) } }) :
    Accepts i P (as.map fun a => .dnsServer (addressText a)) e := by
  induction as generalizing e with
  | nil => exact h
  | cons a as ih =>
    intro ts
    refine ⟨_, rfl, ih ?_⟩
    by_cases has : as = [] <;> simpa [has] using h

theorem dnsNames_getD (ls : List Lease) :
    (dnsNames ls).getD [] = ls.flatMap fun l => l.dns.map addressText := by
  unfold dnsNames
  split
  · next h => exact h.symm
  · rfl

theorem dnsNames_concat (ls : List Lease) (l : Lease) :
    dnsNames (ls ++ [l]) = if l.dns = [] then dnsNames ls
      else some ((dnsNames ls).getD [] ++ l.dns.map addressText) := by
  rw [dnsNames_getD]
  split
  · next h => simp [dnsNames, h]
  · next h =>
    rw [dnsNames]
    split
    · next hnil => simp [h] at hnil
    · simp

theorem accepts_servers {i : Intf} {h : History} {e : RMEntry} {ls : List Lease} {lease : Lease}
    (hrec : List.Forall₂ (Recorded i) h.finished e.infoBlkList)
    (hstart : ∃ ts, e.infoBlk.tDhcpS = some ts)
    (haddr : Addressed e (withGateway (ls ++ [lease])))
    (hdns : e.infoBlk.dnsServers = dnsNames ls) :
    Accepts i (Follows i { h with current := some (ls ++ [lease]) })
      (.dhcpServer (addressText lease.serverAddress) ::
        lease.dns.map fun a => .dnsServer (addressText a)) e := by
  intro ts
  refine ⟨_, rfl, accepts_dns _ ⟨hrec, hstart, haddr, ?_, ?_⟩⟩
  · simp
  · simp only [dnsNames_concat, hdns]

theorem accepts_lease {i : Intf} {h : History} {e : RMEntry} {ls : List Lease} {lease : Lease}
    (hf : Follows i h e) (hc : h.current = some ls)
    (honce : lease.router ≠ 0 → ∀ old ∈ ls, old.router = 0) :
    Accepts i (Follows i { h with current := some (ls ++ [lease]) }) (leaseEvents lease) e := by
  have hp := hf.period
  rw [hc] at hp
  obtain ⟨hstart, haddr, -, hdns⟩ := hp
  rw [leaseEvents_eq]
  by_cases hr : lease.router = 0
  · rw [LogMsg.event, if_pos hr]
    refine accepts_servers hf.records hstart ?_ hdns
    rwa [withGateway_concat, if_pos hr, Option.or_none]
  · rw [LogMsg.event, if_neg hr]
    -- no lease of the period had a gateway, so the parser still waits for an address
    have hnone := withGateway_eq_none (honce hr)
    rw [hnone] at haddr
    intro ts
    refine ⟨_, if_pos haddr, accepts_servers hf.records hstart ?_ hdns⟩
    rw [withGateway_concat, if_neg hr, hnone, Option.none_or]
    exact ⟨rfl, ts, rfl, rfl, rfl, rfl, rfl⟩

theorem messageTaken_of_dormant {io : Io} {s : Iface} {m : Message} (h : s.client.Dormant) :
    messageTaken io s m = none := by
  have hs : s.client.state = .init ∨ s.client.state = .stopped := by
    have hrun := h.running
    simp only [DhcpClient.IsRunning] at hrun
    tauto
  unfold messageTaken
  obtain hs | hs := hs <;> simp [hs]

/-- A period is open when a lease is acquired or the carrier is lost, and none is when DHCP
starts. -/
theorem WiredIn.current_of_acquires {o : Option Iface} {h : History} {io : Io} {ev : Event}
    {lease : Lease} (hw : WiredIn o h) (ha : acquires io o ev = some lease) :
    ∃ ls, h.current = some ls := by
  unfold acquires at ha
  split at ha
  swap
  · cases ha
  next s m =>
  have hw : Wired s h := hw
  rw [← Option.ne_none_iff_exists', ← hw.carrier]
  by_contra hc
  rw [messageTaken_of_dormant (hw.dormant (by simpa using hc))] at ha
  cases ha

theorem WiredIn.current_of_losesCarrier {o : Option Iface} {h : History} {ev : Event}
    (hw : WiredIn o h) (hl : losesCarrier o ev = true) : ∃ ls, h.current = some ls := by
  unfold losesCarrier at hl
  split at hl
  swap
  · cases hl
  next s m =>
  have hw : Wired s h := hw
  rw [← Option.ne_none_iff_exists', ← hw.carrier]
  simp only [Bool.and_eq_true] at hl
  exact hl.1

theorem WiredIn.current_of_startsDhcp {o : Option Iface} {h : History}
    {io : Nat → Io} {ev : Event} (hw : WiredIn o h) (hs : startsDhcp io o ev = true) :
    h.current = none := by
  unfold startsDhcp at hs
  split at hs
  · exact hw
  · next s m =>
    have hw : Wired s h := hw
    simp only [Bool.and_eq_true, Bool.not_eq_true'] at hs
    by_contra hc
    have := hw.carrier.mpr hc
    simp [this] at hs
  · cases hs

/-- What the parser hears of a step keeps its entry in line with the history. -/
theorem accepts_heard {i : Intf} {h : History} {e : RMEntry} {o : Option Iface} {c : Occurrence}
    (hf : Follows i h e) (hw : WiredIn o h) (ho : Orderly h o c) :
    Accepts i (Follows i (h.next o c)) (heardOf o c) e := by
  unfold heardOf History.next
  split
  · next hs => exact accepts_start hf (hw.current_of_startsDhcp hs)
  cases ha : acquires (c.io 0) o c.event with
  | some lease =>
    obtain ⟨ls, hls⟩ := hw.current_of_acquires ha
    have honce := ho.once lease ha
    simp only [hls, Option.getD_some] at honce
    simpa only [hls, Option.map_some] using accepts_lease hf hls honce
  | none =>
    dsimp only
    split
    · next hl =>
      obtain ⟨ls, hls⟩ := hw.current_of_losesCarrier hl
      simpa only [hls, Option.toList_some] using accepts_lost hf hls
    · exact hf

/-! ## The rows of one step -/

theorem parseRow_other {intfList : List Intf} {entries : Intf → RMEntry} {row : Row}
    (h : RMEvent.ofRow row = none) : RMParser.parseRow intfList entries row = .ok entries := by
  rw [RMParser.parseRow, h]

theorem parseRow_text {intfList : List Intf} {entries : Intf → RMEntry}
    {head : LogHead} {ts : ℚ} (hts : float head.stamp = some ts) (loc : Locale) {m : LogMsg}
    {ev : RMEvent} (hm : m.event = some ev) :
    RMParser.parseRow intfList entries (head.line (m.text loc)) =
      if head.nic ∈ intfList then
        ((entries head.nic).step ts head.nic ev).map (Function.update entries head.nic)
      else .ok entries := by
  rw [RMParser.parseRow, ofRow_text, hm]
  simp only [Option.map_some, hts, List.contains_iff_mem]
  split
  · cases (entries head.nic).step ts head.nic ev <;> rfl
  · rfl

theorem foldlM_others {locale : Intf → Locale} {intfList : List Intf} {log : List Row}
    (hlog : Printed locale log []) {entries : Intf → RMEntry} :
    log.foldlM (RMParser.parseRow intfList) entries = .ok entries := by
  generalize hms : ([] : List (Intf × LogMsg)) = ms at hlog
  induction hlog with
  | nil => rfl
  | other hrow _ ih => exact foldlM_cons_eq_ok.mpr ⟨entries, parseRow_other hrow, ih hms⟩
  | message _ _ _ => cases hms

/-- The rows of a step move the entry of its interface, if it is one of those asked for, and no
other. -/
theorem foldlM_rows {locale : Intf → Locale} {intfList : List Intf} {i : Intf}
    {P : RMEntry → Prop} {log : List Row} {out : List LogMsg}
    (hlog : Printed locale log (out.map (Prod.mk i))) {entries : Intf → RMEntry}
    (hacc : i ∈ intfList → Accepts i P (out.filterMap LogMsg.event) (entries i)) :
    ∃ entries', log.foldlM (RMParser.parseRow intfList) entries = .ok entries' ∧
      (i ∈ intfList → P (entries' i)) ∧ ∀ j ≠ i, entries' j = entries j := by
  generalize hms : out.map (Prod.mk i) = ms at hlog
  induction hlog generalizing out entries with
  | nil =>
    obtain rfl := List.map_eq_nil_iff.mp hms
    exact ⟨entries, rfl, hacc, fun _ _ => rfl⟩
  | other hrow _ ih =>
    obtain ⟨entries', hfold, hP, hj⟩ := ih hacc hms
    exact ⟨entries', foldlM_cons_eq_ok.mpr ⟨entries, parseRow_other hrow, hfold⟩, hP, hj⟩
  | @message head ts m log ms hts _ ih =>
    obtain ⟨m', out, rfl, hm, hrest⟩ := List.map_eq_cons_iff.mp hms
    obtain ⟨rfl, rfl⟩ := Prod.mk.inj hm
    cases hev : m'.event with
    | none =>
      rw [List.filterMap_cons_none hev] at hacc
      obtain ⟨entries', hfold, hP, hj⟩ := ih hacc hrest
      refine ⟨entries', foldlM_cons_eq_ok.mpr ⟨entries, parseRow_other ?_, hfold⟩, hP, hj⟩
      rw [ofRow_text, hev, Option.map_none]
    | some ev =>
      rw [List.filterMap_cons_some hev] at hacc
      by_cases hi : head.nic ∈ intfList
      · obtain ⟨e', hstep, hnext⟩ := hacc hi ts
        have hupd : Accepts head.nic P (out.filterMap LogMsg.event)
            (Function.update entries head.nic e' head.nic) := by
          rwa [Function.update_self]
        obtain ⟨entries', hfold, hP, hj⟩ := ih (fun _ => hupd) hrest
        refine ⟨entries', foldlM_cons_eq_ok.mpr ⟨_, ?_, hfold⟩, hP, fun j hne => ?_⟩
        · rw [parseRow_text hts _ hev, if_pos hi, hstep]
          rfl
        · rw [hj j hne, Function.update_of_ne hne]
      · obtain ⟨entries', hfold, hP, hj⟩ := ih (fun h => absurd h hi) hrest
        refine ⟨entries', foldlM_cons_eq_ok.mpr ⟨entries, ?_, hfold⟩, hP, hj⟩
        rw [parseRow_text hts _ hev, if_neg hi]

/-! ## The daemon on its interfaces -/

/-- An interface together with its history. -/
structure Station where
  iface : Option Iface := none
  history : History := {}

/-- A step of the daemon is one of some interface. -/
inductive DaemonStep : (Intf → Station) → Intf × Occurrence → (Intf → Station) → Prop
  | link {ss : Intf → Station} {i : Intf} {c : Occurrence} {o : Option Iface}
      (h : LinkStep (ss i).iface c o) :
      DaemonStep ss (i, c) (Function.update ss i ⟨o, (ss i).history.next (ss i).iface c⟩)

/-- A step of an interface that the parser is asked for is an orderly one. -/
def OrderlyAt (intfList : List Intf) (ss : Intf → Station) (p : Intf × Occurrence) : Prop :=
  p.1 ∈ intfList → Orderly (ss p.1).history (ss p.1).iface p.2

/-- All that the daemon has printed. -/
def printedBy (cs : List (Intf × Occurrence)) : List (Intf × LogMsg) :=
  cs.flatMap fun p => p.2.out.map (Prod.mk p.1)

/-- The interfaces asked for are in line with their histories, and the parser with them. -/
structure InLine (intfList : List Intf) (ss : Intf → Station) (entries : Intf → RMEntry) :
    Prop where
  wired : ∀ i ∈ intfList, WiredIn (ss i).iface (ss i).history
  follows : ∀ i ∈ intfList, Follows i (ss i).history (entries i)

theorem InLine.initial (intfList : List Intf) : InLine intfList (fun _ => {}) fun _ => {} :=
  ⟨fun _ _ => rfl, fun _ _ => ⟨.nil, rfl, rfl⟩⟩

theorem WiredIn.out {o : Option Iface} {h : History} (hw : WiredIn o h) :
    ∀ s, o = some s → s.userdata.out = [] := by
  rintro s rfl
  exact Wired.out hw

theorem InLine.step {locale : Intf → Locale} {intfList : List Intf} {ss ss' : Intf → Station}
    {p : Intf × Occurrence} {entries : Intf → RMEntry} {log : List Row}
    (h : InLine intfList ss entries) (hstep : Guarded (OrderlyAt intfList) DaemonStep ss p ss')
    (hlog : Printed locale log (p.2.out.map (Prod.mk p.1))) :
    ∃ entries', log.foldlM (RMParser.parseRow intfList) entries = .ok entries' ∧
      InLine intfList ss' entries' := by
  obtain ⟨ho, hstep⟩ := hstep
  cases hstep with
  | @link i c o hs =>
  have hacc (hi : i ∈ intfList) : Accepts i (Follows i ((ss i).history.next (ss i).iface c))
      (c.out.filterMap LogMsg.event) (entries i) := by
    have hw := h.wired i hi
    rw [hs.heard hw.out]
    exact accepts_heard (h.follows i hi) hw (ho hi)
  obtain ⟨entries', hfold, hP, hj⟩ := foldlM_rows hlog hacc
  refine ⟨entries', hfold, fun j hmem => ?_, fun j hmem => ?_⟩
  · by_cases hne : j = i
    · subst hne
      rw [Function.update_self]
      exact (h.wired j hmem).step (ho hmem) hs
    · rw [Function.update_of_ne hne]
      exact h.wired j hmem
  · by_cases hne : j = i
    · subst hne
      rw [Function.update_self]
      exact hP hmem
    · rw [Function.update_of_ne hne, hj j hne]
      exact h.follows j hmem

theorem InLine.run {locale : Intf → Locale} {intfList : List Intf} {ss ss' : Intf → Station}
    {cs : List (Intf × Occurrence)} {entries : Intf → RMEntry} {log : List Row}
    (h : InLine intfList ss entries)
    (hrun : Run (Guarded (OrderlyAt intfList) DaemonStep) ss cs ss')
    (hlog : Printed locale log (printedBy cs)) :
    ∃ entries', log.foldlM (RMParser.parseRow intfList) entries = .ok entries' ∧
      InLine intfList ss' entries' := by
  induction hrun generalizing entries log with
  | nil ss =>
    exact ⟨entries, foldlM_others hlog, h⟩
  | cons hstep _ ih =>
    obtain ⟨log₁, log₂, rfl, h₁, h₂⟩ := Printed.split hlog
    obtain ⟨entries₁, hfold₁, hin₁⟩ := h.step hstep h₁
    obtain ⟨entries₂, hfold₂, hin₂⟩ := ih hin₁ h₂
    refine ⟨entries₂, ?_, hin₂⟩
    rw [List.foldlM_append, hfold₁]
    exact hfold₂

end CarFi.Roamingd

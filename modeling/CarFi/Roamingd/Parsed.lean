import CarFi.Roamingd.Records
import CarFi.Roamingd.Carrier

/-!
# What the records say

The parser gets through the log of every orderly run, with one record for each finished carrier
period. A record has the lease of its period just if that lease has a gateway: an address
without one is printed in a form that the parser does not know.
-/
namespace CarFi.Roamingd

open Library Library.Printf Library.PyText Attached Analyzer

/-! ## Runs on given inputs -/

/-- The daemon on timed events of one interface, while they meet `p`, with what it did. -/
def Station.execute (p : Station → Nat → Event → Bool) :
    Station → List (Nat × Event) → Option (List Occurrence × Station)
  | st, [] => some ([], st)
  | st, (now, e) :: es =>
    match handleEvent (fun _ => quietIo now) st.iface e with
    | some (.ok t) =>
      let c : Occurrence := ⟨fun _ => quietIo now, e, t.userdata.sent, t.userdata.out⟩
      if p st now e then
        (Station.execute p ⟨t.settle, st.history.next st.iface c⟩ es).map fun q =>
          (c :: q.1, q.2)
      else none
    | _ => none

theorem Station.execute_run {ok : (Intf → Station) → Intf × Occurrence → Prop}
    {p : Station → Nat → Event → Bool} {i : Intf}
    (hp : ∀ ss now e sent out, p (ss i) now e = true →
      ok ss (i, ⟨fun _ => quietIo now, e, sent, out⟩))
    {es : List (Nat × Event)} {cs : List Occurrence} {st : Station} {ss : Intf → Station}
    (h : (ss i).execute p es = some (cs, st)) :
    ∃ ss', Run (Guarded ok DaemonStep) ss (cs.map (Prod.mk i)) ss' ∧ ss' i = st := by
  induction es generalizing ss cs with
  | nil =>
    cases h
    exact ⟨ss, .nil ss, rfl⟩
  | cons q es ih =>
    obtain ⟨now, e⟩ := q
    simp only [Station.execute] at h
    split at h
    swap
    · cases h
    next t ht =>
    split at h
    swap
    · cases h
    next hpe =>
    obtain ⟨⟨cs', st'⟩, hrest, hq⟩ := Option.map_eq_some_iff.mp h
    cases hq
    have hstep := DaemonStep.link (.handle ht)
    obtain ⟨ss', hrun, hss⟩ :=
      @ih cs' (Function.update ss i _) (by rw [Function.update_self, hrest])
    exact ⟨ss', .cons ⟨hp ss now e _ _ hpe, hstep⟩ hrun, hss⟩

/-- The rows of messages that are all printed at one time. -/
def rowsOf (head : LogHead) (loc : Locale) (ms : List LogMsg) : List Row :=
  ms.map fun m => head.line (m.text loc)

theorem printed_rowsOf {locale : Intf → Locale} {head : LogHead} {ts : ℚ}
    (hts : float head.stamp = some ts) (ms : List LogMsg) :
    Printed locale (rowsOf head (locale head.nic) ms) (ms.map (Prod.mk head.nic)) := by
  induction ms with
  | nil => exact .nil
  | cons m ms ih => exact .message hts ih

theorem printedBy_map (i : Intf) (cs : List Occurrence) :
    printedBy (cs.map (Prod.mk i)) = (cs.flatMap Occurrence.out).map (Prod.mk i) := by
  simp [printedBy, List.flatMap_map, List.map_flatMap]

/-- On such rows the parser is its step on the events. -/
theorem foldlM_rowsOf {intfList : List Intf} {head : LogHead} {ts : ℚ}
    (hts : float head.stamp = some ts) (hi : head.nic ∈ intfList) (loc : Locale)
    (ms : List LogMsg) (entries : Intf → RMEntry) :
    (rowsOf head loc ms).foldlM (RMParser.parseRow intfList) entries =
      ((ms.filterMap LogMsg.event).foldlM (fun (e : RMEntry) ev => e.step ts head.nic ev)
        (entries head.nic)).map (Function.update entries head.nic) := by
  induction ms generalizing entries with
  | nil =>
    have hself : Function.update entries head.nic (entries head.nic) = entries :=
      Function.update_eq_self _ _
    exact congrArg Except.ok hself.symm
  | cons m ms ih =>
    rw [rowsOf, List.map_cons, List.foldlM_cons]
    cases hev : m.event with
    | none =>
      rw [parseRow_other (by rw [ofRow_text, hev, Option.map_none]), List.filterMap_cons_none hev]
      exact ih entries
    | some ev =>
      rw [parseRow_text hts loc hev, if_pos hi, List.filterMap_cons_some hev, List.foldlM_cons]
      cases (entries head.nic).step ts head.nic ev with
      | error err => rfl
      | ok e =>
        have hidem : Function.update (Function.update entries head.nic e) head.nic =
            Function.update entries head.nic := funext fun _ => Function.update_idem ..
        have hrest := ih (Function.update entries head.nic e)
        rw [Function.update_self, hidem] at hrest
        exact hrest

/-- An event that meets the conditions of an orderly run. -/
def isOrderly (st : Station) (now : Nat) (e : Event) : Bool :=
  (!gainsCarrier st.iface e || startsDhcp (fun _ => quietIo now) st.iface e) &&
    (match e with | .delLink => false | _ => true) &&
    (acquires (quietIo now) st.iface e).all fun lease =>
      lease.router = 0 || (st.history.current.getD []).all fun old => old.router = 0

theorem orderlyAt_of_isOrderly {intfList : List Intf} {ss : Intf → Station} {i : Intf} {now : Nat}
    {e : Event} {sent : List Request} {out : List LogMsg} (h : isOrderly (ss i) now e = true) :
    OrderlyAt intfList ss (i, ⟨fun _ => quietIo now, e, sent, out⟩) := by
  intro _
  simp only [isOrderly, Bool.and_eq_true, Bool.or_eq_true, Bool.not_eq_true'] at h
  obtain ⟨⟨hstart, hdel⟩, honce⟩ := h
  refine ⟨fun hg => ?_, ?_, fun lease ha hr => ?_⟩
  · exact hstart.resolve_left fun hn => by simp [hg] at hn
  · rintro rfl
    cases hdel
  · rw [ha] at honce
    simpa [hr] using honce

/-- Rows at second 1.0 about `wlan0`. -/
def sampleHead : LogHead where
  stamp := ['1', '.', '0']
  nic := ['w', 'l', 'a', 'n', '0']
  stamp_ne := by simp
  stamp_class := List.all_eq_true.mp (by decide)
  nic_ne := by simp
  nic_class := List.all_eq_true.mp (by decide)

theorem float_sampleHead : float sampleHead.stamp = some 1 := by decide +kernel

def sampleLocale : Locale := ⟨3, fun _ => []⟩

/-- A run on given inputs, with the log that it prints. -/
theorem Station.execute_printed {ok : (Intf → Station) → Intf × Occurrence → Prop}
    {p : Station → Nat → Event → Bool}
    (hp : ∀ ss now e sent out, p (ss sampleHead.nic) now e = true →
      ok ss (sampleHead.nic, ⟨fun _ => quietIo now, e, sent, out⟩))
    {es : List (Nat × Event)} {cs : List Occurrence} {st : Station}
    (h : Station.execute p {} es = some (cs, st)) :
    ∃ ss, Run (Guarded ok DaemonStep) (fun _ => {}) (cs.map (Prod.mk sampleHead.nic)) ss ∧
      Printed (fun _ => sampleLocale) (rowsOf sampleHead sampleLocale (cs.flatMap Occurrence.out))
        (printedBy (cs.map (Prod.mk sampleHead.nic))) ∧
      ss sampleHead.nic = st := by
  obtain ⟨ss, hrun, hst⟩ := @Station.execute_run ok p sampleHead.nic hp _ _ _ (fun _ => {}) h
  refine ⟨ss, hrun, ?_, hst⟩
  rw [printedBy_map]
  exact printed_rowsOf float_sampleHead _

/-! ## One record for each period -/

/-- The parser gets through the log, and has recorded every period that is finished. -/
theorem parse_eq_ok {locale : Intf → Locale} {intfList : List Intf}
    {cs : List (Intf × Occurrence)} {ss : Intf → Station} {log : List Row}
    (hrun : Run (Guarded (OrderlyAt intfList) DaemonStep) (fun _ => {}) cs ss)
    (hlog : Printed locale log (printedBy cs)) :
    ∃ recs, RMParser.parse intfList log = .ok recs ∧
      ∀ i ∈ intfList, List.Forall₂ (Recorded i) (ss i).history.finished (recs i) := by
  obtain ⟨entries, hfold, hin⟩ := (InLine.initial intfList).run hrun hlog
  refine ⟨fun i => (entries i).infoBlkList, ?_, fun i hi => (hin.follows i hi).records⟩
  rw [RMParser.parse, hfold]
  rfl

theorem parse_one_record {locale : Intf → Locale} {intfList : List Intf}
    {cs : List (Intf × Occurrence)} {ss : Intf → Station} {log : List Row}
    (hrun : Run (Guarded (OrderlyAt intfList) DaemonStep) (fun _ => {}) cs ss)
    (hlog : Printed locale log (printedBy cs)) :
    ∃ recs, RMParser.parse intfList log = .ok recs ∧
      ∀ i ∈ intfList, (recs i).length = (ss i).history.finished.length ∧
        ∀ blk ∈ recs i, blk.intf = i := by
  obtain ⟨recs, hparse, hrecs⟩ := parse_eq_ok hrun hlog
  refine ⟨recs, hparse, fun i hi => ⟨(hrecs i hi).length_eq.symm, fun blk hblk => ?_⟩⟩
  have hflip : List.Forall₂ (fun blk ls => Recorded i ls blk) _ _ := (hrecs i hi).flip
  obtain ⟨ls, -, hrec⟩ := exists_right_of_forall₂ hflip hblk
  exact hrec.intf

/-- A carrier period in which a lease is acquired. -/
def period (o : Options) : List (Nat × Event) := acquisition o ++ [(1300000, carrierLoss)]

theorem parse_one_record_period :
    ∃ cs ss log recs,
      Run (Guarded (OrderlyAt [sampleHead.nic]) DaemonStep) (fun _ => {}) cs ss ∧
      Printed (fun _ => sampleLocale) log (printedBy cs) ∧
      RMParser.parse [sampleHead.nic] log = .ok recs ∧ (recs sampleHead.nic).length = 1 := by
  have hex : (Station.execute isOrderly {} (period sampleOptions)).any (fun q =>
      q.2.history.finished.length = 1) := by decide +kernel
  obtain ⟨⟨cs, st⟩, hcs, hlen⟩ := (Option.any_eq_true _ _).mp hex
  obtain ⟨ss, hrun, hlog, hst⟩ := Station.execute_printed
    (fun _ _ _ _ _ => orderlyAt_of_isOrderly) hcs
  obtain ⟨recs, hparse, hrecs⟩ := @parse_one_record _ [sampleHead.nic] _ _ _ hrun hlog
  refine ⟨_, ss, _, recs, hrun, hlog, hparse, ?_⟩
  rw [(hrecs sampleHead.nic (by simp)).1, hst]
  exact of_decide_eq_true hlen

/-- The error that the parser ends with. -/
def errorOf {α : Type} : Except PyError α → Option PyError
  | .error err => some err
  | .ok _ => none

theorem eq_of_errorOf {α : Type} {x : Except PyError α} {err : PyError}
    (h : errorOf x = some err) : x = .error err := by
  cases x with
  | error err' => exact congrArg Except.error (Option.some.inj h)
  | ok a => cases h

/-- A renewal brings another address, for which the parser does not wait. -/
def addressChange : List (Nat × Event) :=
  acquisition sampleOptions ++ List.replicate 3 (1300000, Event.reply 0 0) ++
    [(1801000000, Event.t1), (1801000000, .resend),
      (1801100000, .receive ⟨7, .ack { sampleOptions with address := 0xc0a80065 }⟩)]

theorem parse_fails_addressChange :
    ∃ cs ss log, Run DaemonStep (fun _ => {}) cs ss ∧
      Printed (fun _ => sampleLocale) log (printedBy cs) ∧
      RMParser.parse [sampleHead.nic] log = .error .assertionError := by
  have hex : (Station.execute (fun _ _ _ => true) {} addressChange).any (fun q =>
      errorOf (((q.1.flatMap Occurrence.out).filterMap LogMsg.event).foldlM
        (fun (e : RMEntry) ev => e.step 1 sampleHead.nic ev) {}) = some .assertionError) := by
    decide +kernel
  obtain ⟨⟨cs, st⟩, hcs, herr⟩ := (Option.any_eq_true _ _).mp hex
  obtain ⟨ss, hrun, hlog, -⟩ := @Station.execute_printed (fun _ _ => True) _
    (fun _ _ _ _ _ _ => trivial) _ _ _ hcs
  refine ⟨_, ss, _, hrun.of_guarded, hlog, ?_⟩
  have herr := eq_of_errorOf (of_decide_eq_true herr)
  rw [RMParser.parse, foldlM_rowsOf float_sampleHead (by simp), herr]
  rfl

/-! ## The lease of a period -/

/-- The record of a period has what the leases of the period have. -/
structure Matches (ls : List Lease) (blk : RMInfoBlk) : Prop where
  ip_none : blk.ip = none ↔ ls = []
  lease : ∀ l ∈ ls, blk.ip = some (addressText l.address) ∧
    blk.ipPrefix = some (decText (prefixlenOf l.subnetMask)) ∧
    blk.dhcpServer = some (addressText l.serverAddress) ∧
    blk.dnsServers.getD [] = l.dns.map addressText ∧
    blk.gw = if l.router = 0 then none else some (addressText l.router)

/-- After a lease with a gateway there is none with one. -/
def OneGateway (ls : List Lease) : Prop := ls.Pairwise fun l l' => l'.router ≠ 0 → l.router = 0

theorem OneGateway.eq_nil_or_singleton {ls : List Lease} (h : OneGateway ls)
    (hr : ∀ l ∈ ls, l.router ≠ 0) : ls = [] ∨ ∃ l, ls = [l] := by
  cases ls with
  | nil => exact .inl rfl
  | cons l ls =>
    cases ls with
    | nil => exact .inr ⟨l, rfl⟩
    | cons l' ls =>
      have hl := List.rel_of_pairwise_cons h List.mem_cons_self (hr l' (by simp))
      exact absurd hl (hr l List.mem_cons_self)

theorem Recorded.matches_iff {i : Intf} {ls : List Lease} {blk : RMInfoBlk}
    (h : Recorded i ls blk) (ho : OneGateway ls) :
    Matches ls blk ↔ ∀ l ∈ ls, l.router ≠ 0 := by
  constructor
  · intro hm l hl hr
    -- the record has a gateway as soon as it has an address
    obtain ⟨hip, -, -, -, hgw⟩ := hm.lease l hl
    rw [if_pos hr, h.gw, Option.map_eq_none_iff] at hgw
    rw [h.ip, hgw] at hip
    cases hip
  · intro hr
    obtain rfl | ⟨l, rfl⟩ := ho.eq_nil_or_singleton hr
    · exact ⟨by simp [h.ip, withGateway], by simp⟩
    · have hl := hr l (by simp)
      have hw : withGateway [l] = some l := by simp [withGateway, hl]
      have hdns : (dnsNames [l]).getD [] = l.dns.map addressText := by simp [dnsNames_getD]
      refine ⟨by simp [h.ip, hw], fun l' hl' => ?_⟩
      obtain rfl := List.mem_singleton.mp hl'
      exact ⟨by rw [h.ip, hw]; rfl, by rw [h.ipPrefix, hw]; rfl, h.server, by rw [h.dns, hdns],
        by rw [h.gw, hw, if_neg hl]; rfl⟩

/-- The periods of an orderly run have at most one lease with a gateway each. -/
def History.Single (h : History) : Prop :=
  (∀ ls ∈ h.current, OneGateway ls) ∧ ∀ ls ∈ h.finished, OneGateway ls

theorem History.Single.next {h : History} {o : Option Iface} {c : Occurrence} (hs : h.Single)
    (ho : Orderly h o c) : (h.next o c).Single := by
  obtain ⟨hcur, hfin⟩ := hs
  unfold History.next
  split
  · refine ⟨fun ls hls => ?_, hfin⟩
    cases hls
    exact .nil
  cases ha : acquires (c.io 0) o c.event with
  | some lease =>
    refine ⟨fun ls hls => ?_, hfin⟩
    obtain ⟨old, hold, rfl⟩ := Option.map_eq_some_iff.mp hls
    refine List.pairwise_append.mpr ⟨hcur old hold, List.pairwise_singleton _ _, ?_⟩
    intro l hl l' hl' hr
    obtain rfl := List.mem_singleton.mp hl'
    exact ho.once l' ha hr l (by rwa [hold])
  | none =>
    dsimp only
    split
    · refine ⟨fun ls hls => (by cases hls), fun ls hls => ?_⟩
      obtain hls | hls := List.mem_append.mp hls
      · exact hfin ls hls
      · exact hcur ls (Option.mem_toList.mp hls)
    · exact ⟨hcur, hfin⟩

theorem single_of_run {intfList : List Intf} {cs : List (Intf × Occurrence)}
    {ss ss' : Intf → Station} (hrun : Run (Guarded (OrderlyAt intfList) DaemonStep) ss cs ss')
    (h : ∀ i ∈ intfList, (ss i).history.Single) :
    ∀ i ∈ intfList, (ss' i).history.Single := by
  refine hrun.invariant (I := fun ss => ∀ i ∈ intfList, (ss i).history.Single) ?_ h
  rintro ss p ss' hs ⟨ho, hstep⟩ j hmem
  cases hstep with
  | @link i c o _ =>
  by_cases hne : j = i
  · subst hne
    rw [Function.update_self]
    exact (hs j hmem).next (ho hmem)
  · rw [Function.update_of_ne hne]
    exact hs j hmem

theorem record_matches_iff {locale : Intf → Locale} {intfList : List Intf}
    {cs : List (Intf × Occurrence)} {ss : Intf → Station} {log : List Row}
    (hrun : Run (Guarded (OrderlyAt intfList) DaemonStep) (fun _ => {}) cs ss)
    (hlog : Printed locale log (printedBy cs)) :
    ∃ recs, RMParser.parse intfList log = .ok recs ∧
      ∀ i ∈ intfList,
        List.Forall₂ (fun ls blk => Matches ls blk ↔ ∀ l ∈ ls, l.router ≠ 0)
          (ss i).history.finished (recs i) := by
  obtain ⟨recs, hparse, hrecs⟩ := parse_eq_ok hrun hlog
  have hsingle := single_of_run hrun fun _ _ =>
    ⟨fun ls hls => (by cases hls), fun ls hls => (by cases hls)⟩
  refine ⟨recs, hparse, fun i hi => ?_⟩
  refine ((List.forall₂_and_left _ _).mpr ⟨(hsingle i hi).2, hrecs i hi⟩).imp ?_
  rintro ls blk ⟨hone, hrec⟩
  exact hrec.matches_iff hone

theorem record_matches_period :
    ∃ cs ss log recs,
      Run (Guarded (OrderlyAt [sampleHead.nic]) DaemonStep) (fun _ => {}) cs ss ∧
      Printed (fun _ => sampleLocale) log (printedBy cs) ∧
      RMParser.parse [sampleHead.nic] log = .ok recs ∧
      ∃ lease blk, (ss sampleHead.nic).history.finished = [[lease]] ∧
        recs sampleHead.nic = [blk] ∧ lease.router ≠ 0 ∧ Matches [lease] blk := by
  have hex : (Station.execute isOrderly {} (period sampleOptions)).any (fun q =>
      q.2.history.finished.map (·.map fun lease => lease.router != 0) == [[true]]) := by
    decide +kernel
  obtain ⟨⟨cs, st⟩, hcs, hfin⟩ := (Option.any_eq_true _ _).mp hex
  obtain ⟨ss, hrun, hlog, rfl⟩ := Station.execute_printed
    (fun _ _ _ _ _ => orderlyAt_of_isOrderly) hcs
  obtain ⟨recs, hparse, hrecs⟩ := @record_matches_iff _ [sampleHead.nic] _ _ _ hrun hlog
  have hall := hrecs sampleHead.nic (by simp)
  simp only [beq_iff_eq, List.map_eq_singleton_iff] at hfin
  obtain ⟨_, hone, lease, rfl, hfin⟩ := hfin
  have hr : lease.router ≠ 0 := by simpa using hfin
  rw [hone] at hall
  obtain ⟨blk, rest, hmatch, hnil, hcons⟩ := List.forall₂_cons_left_iff.mp hall
  obtain rfl := List.forall₂_nil_left_iff.mp hnil
  refine ⟨_, ss, _, recs, hrun, hlog, hparse, lease, blk, hone, hcons, hr, hmatch.mpr ?_⟩
  simpa using hr

/-- The address of a lease without a gateway is not recorded. -/
theorem no_gateway_no_address :
    ∃ cs ss log recs,
      Run (Guarded (OrderlyAt [sampleHead.nic]) DaemonStep) (fun _ => {}) cs ss ∧
      Printed (fun _ => sampleLocale) log (printedBy cs) ∧
      RMParser.parse [sampleHead.nic] log = .ok recs ∧
      ∃ lease blk, (ss sampleHead.nic).history.finished = [[lease]] ∧
        recs sampleHead.nic = [blk] ∧ blk.ip = none := by
  have hex : (Station.execute isOrderly {}
      (period { sampleOptions with router := 0 })).any (fun q =>
        q.2.history.finished.map (·.map fun lease => lease.router == 0) == [[true]]) := by
    decide +kernel
  obtain ⟨⟨cs, st⟩, hcs, hfin⟩ := (Option.any_eq_true _ _).mp hex
  obtain ⟨ss, hrun, hlog, rfl⟩ := Station.execute_printed
    (fun _ _ _ _ _ => orderlyAt_of_isOrderly) hcs
  obtain ⟨recs, hparse, hrecs⟩ := @parse_eq_ok _ [sampleHead.nic] _ _ _ hrun hlog
  have hall := hrecs sampleHead.nic (by simp)
  simp only [beq_iff_eq, List.map_eq_singleton_iff] at hfin
  obtain ⟨_, hone, lease, rfl, hfin⟩ := hfin
  have hr : lease.router = 0 := by simpa using hfin
  rw [hone] at hall
  obtain ⟨blk, rest, hrec, hnil, hcons⟩ := List.forall₂_cons_left_iff.mp hall
  obtain rfl := List.forall₂_nil_left_iff.mp hnil
  refine ⟨_, ss, _, recs, hrun, hlog, hparse, lease, blk, hone, hcons, ?_⟩
  rw [hrec.ip, withGateway_eq_none (by simpa using hr), Option.map_none]

end CarFi.Roamingd

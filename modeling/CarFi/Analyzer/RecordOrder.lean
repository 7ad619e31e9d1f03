import CarFi.Analyzer.Isolation
import CarFi.Analyzer.WpaPhases

/-!
# The records of a log in time order

On a log whose timestamps do not decrease, the records of each interface come out in time order:
the connections of `WPAParser` follow one another, and so do the carrier periods of `RMParser`
with the times inside them. The sweep over both lists relies on it.
-/
namespace CarFi.Analyzer

open Library Library.Regex Library.PyText

/-- The timestamp of a row, where the row has a head with a readable one. -/
def lineTime (row : Row) : Option ℚ := (headCut row).bind fun cut => float cut.stamp

/-- The timestamps of the log do not decrease. -/
def TimesOrdered (rows : List Row) : Prop := (rows.filterMap lineTime).Pairwise (· ≤ ·)

instance (rows : List Row) : Decidable (TimesOrdered rows) :=
  inferInstanceAs (Decidable ((rows.filterMap lineTime).Pairwise (· ≤ ·)))

/-- The connection of a record with both times. -/
def InfoBlk.conn (record : InfoBlk) : Option (ℚ × ℚ) :=
  record.tConnS.bind fun s => record.tConnE.map fun e => (s, e)

/-- Each connection ends no earlier than it starts, and no later than the next one starts. -/
structure ConnOrdered (records : List InfoBlk) : Prop where
  each : ∀ c ∈ records.filterMap InfoBlk.conn, c.1 ≤ c.2
  next : (records.filterMap InfoBlk.conn).Pairwise fun c d => c.2 ≤ d.1

/-- The times of one carrier period. -/
structure RMInfoBlk.Ordered (record : RMInfoBlk) : Prop where
  tIpS : record.tIpS = record.tDhcpE
  tDhcpE : ∀ t ∈ record.tDhcpE, record.tDhcpS ≤ t ∧ t ≤ record.tIpE
  tIpE : record.tDhcpS ≤ record.tIpE

structure DhcpOrdered (records : List RMInfoBlk) : Prop where
  each : ∀ record ∈ records, record.Ordered
  next : (records.map RMInfoBlk.tDhcpS).Pairwise (· ≤ ·)

/-! ## wpa_supplicant -/

theorem splitHead_eq_stamp {row : Row} {cut : HeadCut} (h : headCut row = some cut) :
    splitHead ':' row = cut.stamp := by
  unfold headCut at h
  split at h
  · cases h
  obtain ⟨s, hs, h⟩ := Option.bind_eq_some_iff.mp h
  split at h
  · cases h
  obtain ⟨rest, -, rfl⟩ := Option.map_eq_some_iff.mp h
  have hcolon : row.dropWhile stampClass = ':' :: s := by
    unfold afterColon at hs
    split at hs
    · rename_i hrow
      rw [hrow, Option.some.inj hs]
    · cases hs
  have hclass : ∀ c ∈ row.takeWhile stampClass, (c != ':') = true := by
    intro c hc
    have hstamp : stampClass c = true := List.mem_takeWhile_imp hc
    rcases eq_or_ne c ':' with rfl | hne
    · exact absurd hstamp (by decide)
    · simpa using hne
  have hrow : row = row.takeWhile stampClass ++ ':' :: s := by
    rw [← hcolon, List.takeWhile_append_dropWhile]
  conv_lhs => rw [hrow, splitHead, List.takeWhile_append_of_pos hclass]
  simp

theorem lineTime_of_stamp {row : Row} (hnic : (nicOf row).isSome) {t : ℚ}
    (h : stamp row = .ok t) : lineTime row = some t := by
  obtain ⟨intf, hintf⟩ := Option.isSome_iff_exists.mp hnic
  obtain ⟨cut, hcut, -⟩ := Option.map_eq_some_iff.mp (lineNic_of_nicOf hintf)
  unfold stamp at h
  rw [splitHead_eq_stamp hcut] at h
  cases hfloat : float cut.stamp with
  | none => simp [hfloat] at h
  | some u =>
    obtain rfl : u = t := by simpa [hfloat] using h
    simp [lineTime, hcut, hfloat]

theorem TimesOrdered.timeOrdered {rows : List Row} (h : TimesOrdered rows) : TimeOrdered rows := by
  have hrows : rows.Pairwise fun a b => ∀ s ∈ lineTime a, ∀ t ∈ lineTime b, s ≤ t := by
    simpa [TimesOrdered, List.pairwise_filterMap] using h
  refine (hrows.sublist List.filter_sublist).imp_of_mem fun {a b} ha hb hab s t hs ht => ?_
  exact hab s (lineTime_of_stamp (List.mem_filter.mp ha).2 hs) t
    (lineTime_of_stamp (List.mem_filter.mp hb).2 ht)

/-- A connection starts at a row of its block. -/
theorem exists_row_of_tConnS {blk : List Row} {record : InfoBlk}
    (h : blockRecord blk = .ok (some record)) {s : ℚ} (hs : s ∈ record.tConnS) :
    ∃ row ∈ blk, stamp row = .ok s := by
  obtain ⟨-, -, -, hconn⟩ := stampOf_phaseRow h
  rw [Option.mem_def.mp hs] at hconn
  cases hrow : phaseRow blk .completed with
  | none => rw [hrow] at hconn; cases hconn
  | some row =>
    rw [hrow] at hconn
    cases hconn with
    | some hstamp =>
      obtain ⟨i, hi⟩ := phaseRow_eq_some hrow
      exact ⟨row, List.mem_of_getElem? hi, hstamp⟩

theorem conn_eq_some {record : InfoBlk} {c : ℚ × ℚ} :
    record.conn = some c ↔ c.1 ∈ record.tConnS ∧ c.2 ∈ record.tConnE := by
  obtain ⟨s, e⟩ := c
  cases hs : record.tConnS <;> cases he : record.tConnE <;> simp [InfoBlk.conn, hs, he]

theorem WPAParser.connOrdered {intfList : List Intf} {rows : List Row}
    {out : Intf → List InfoBlk} (htime : TimesOrdered rows)
    (h : WPAParser.parse intfList rows = .ok out) {intf : Intf} (hintf : intf ∈ intfList) :
    ConnOrdered (out intf) := by
  obtain ⟨records, hblocks, hout⟩ := parse_records h hintf
  -- the blocks of the interface are consecutive pieces of the ordered rows
  have hflat : (blocksOf intf rows).flatten.Pairwise NotLater := by
    refine htime.timeOrdered.sublist ?_
    have hpre := flatten_closedBlocksFrom_isPrefix (enters .disconn) []
      (rows.filter fun row => nicOf row = some intf)
    refine hpre.sublist.trans (List.monotone_filter_right _ fun row hrow => ?_)
    simp only [decide_eq_true_eq] at hrow
    simp [hrow]
  obtain ⟨heach, hnext⟩ := List.pairwise_flatten.mp hflat
  constructor
  · intro c hc
    obtain ⟨record, hrecord, hconn⟩ := List.mem_filterMap.mp hc
    obtain ⟨hs, he⟩ := conn_eq_some.mp hconn
    obtain ⟨blk, hblk, hread⟩ := (mem_parse h hintf).mp hrecord
    obtain ⟨row, hrow, hstamp⟩ := exists_row_of_tConnS hread hs
    obtain ⟨last, hlast, hend⟩ := exists_last_of_tConnE hread he
    exact notLater_last (heach blk hblk) hrow hlast _ _ hstamp hend
  · rw [hout, List.reduceOption, List.filterMap_filterMap, List.pairwise_filterMap]
    refine pairwise_of_forall₂ (fun blk blk' r r' hr hr' hle c hc d hd => ?_) hblocks hnext
    obtain ⟨record, rfl, hconn⟩ := Option.bind_eq_some_iff.mp (Option.mem_def.mp hc)
    obtain ⟨record', rfl, hconn'⟩ := Option.bind_eq_some_iff.mp (Option.mem_def.mp hd)
    obtain ⟨-, he⟩ := conn_eq_some.mp hconn
    obtain ⟨hs, -⟩ := conn_eq_some.mp hconn'
    obtain ⟨last, hlast, hend⟩ := exists_last_of_tConnE hr he
    obtain ⟨row, hrow, hstamp⟩ := exists_row_of_tConnS hr' hs
    exact hle last (List.mem_of_getElem? hlast) row hrow _ _ hend hstamp

/-! ## roamingd -/

/-- The draft of the running carrier period, after the time `now`. -/
def RMEntry.DraftOrdered (e : RMEntry) (now : ℚ) : Prop :=
  match e.state with
  | .lostCarrier => e.infoBlk.tDhcpS = none
  | .gainedCarrier => ∃ s, e.infoBlk.tDhcpS = some s ∧ s ≤ now ∧
      ∀ record ∈ e.infoBlkList, record.tDhcpS ≤ s
  | .getIp => ∃ s t, e.infoBlk.tDhcpS = some s ∧ e.infoBlk.tDhcpE = some (some t) ∧
      e.infoBlk.tIpS = some (some t) ∧ s ≤ t ∧ t ≤ now ∧
      ∀ record ∈ e.infoBlkList, record.tDhcpS ≤ s

/-- The records and the draft of an entry, after the time `now`. -/
structure RMEntry.OrderedUpTo (e : RMEntry) (now : ℚ) : Prop where
  records : DhcpOrdered e.infoBlkList
  past : ∀ record ∈ e.infoBlkList, record.tDhcpS ≤ now
  draft : e.DraftOrdered now

theorem RMEntry.orderedUpTo_init (now : ℚ) : RMEntry.OrderedUpTo {} now :=
  ⟨⟨by simp, by simp⟩, by simp, rfl⟩

theorem build_eq_ok {d : RMDraft} {tIpE : ℚ} {intf : Intf} {blk : RMInfoBlk}
    (h : d.build tIpE intf = .ok blk) :
    d.tDhcpS = some blk.tDhcpS ∧ d.tDhcpE = some blk.tDhcpE ∧ d.tIpS = some blk.tIpS ∧
      blk.tIpE = tIpE := by
  unfold RMDraft.build at h
  split at h
  · cases h
    simp_all
  · cases h

/-- A record that is appended once its period has ended. -/
theorem DhcpOrdered.concat {records : List RMInfoBlk} (h : DhcpOrdered records)
    {blk : RMInfoBlk} (hblk : blk.Ordered)
    (hpast : ∀ record ∈ records, record.tDhcpS ≤ blk.tDhcpS) :
    DhcpOrdered (records ++ [blk]) := by
  constructor
  · intro record hrecord
    rcases List.mem_append.mp hrecord with hold | hnew
    · exact h.each record hold
    · rwa [List.mem_singleton.mp hnew]
  · simpa [List.pairwise_append, h.next] using hpast

/-- The loss of the carrier emits the record of the period. -/
theorem RMEntry.lost_ordered {e e' : RMEntry} {now ts : ℚ} (h : e.OrderedUpTo now)
    (hts : now ≤ ts) {intf : Intf} (hs : e.step ts intf .ipLost = .ok e') :
    e'.OrderedUpTo ts := by
  simp only [RMEntry.step] at hs
  split at hs
  · cases hs
  rename_i blk hbuild
  obtain ⟨hdS, hdE, hiS, htE⟩ := build_eq_ok hbuild
  cases hs
  have hdraft := h.draft
  have hblk : blk.Ordered ∧ ∀ record ∈ e.infoBlkList, record.tDhcpS ≤ blk.tDhcpS := by
    unfold RMEntry.DraftOrdered at hdraft
    cases hstate : e.state with
    | lostCarrier =>
      simp only [hstate] at hdraft
      simp [hstate, hdraft] at hdS
    | gainedCarrier =>
      simp only [hstate] at hdraft
      obtain ⟨s, hs, hle, hpast⟩ := hdraft
      simp only [hstate, reduceCtorEq, if_false, hs, Option.some.injEq] at hdS hdE hiS
      subst hdS
      refine ⟨⟨by rw [← hiS, ← hdE], by simp [← hdE], ?_⟩, hpast⟩
      rw [htE]
      exact hle.trans hts
    | getIp =>
      simp only [hstate] at hdraft
      obtain ⟨s, t, hs, hE, hS, hst, hle, hpast⟩ := hdraft
      simp only [hstate, if_true, hs, hE, hS, Option.some.injEq] at hdS hdE hiS
      subst hdS
      refine ⟨⟨by rw [← hiS, ← hdE], ?_, ?_⟩, hpast⟩
      · simp only [← hdE, Option.mem_def, Option.some.injEq, htE]
        rintro u rfl
        exact ⟨hst, hle.trans hts⟩
      · rw [htE]
        exact hst.trans (hle.trans hts)
  refine ⟨h.records.concat hblk.1 hblk.2, fun record hrecord => ?_, rfl⟩
  rcases List.mem_append.mp hrecord with hold | hnew
  · exact (h.past record hold).trans hts
  · rw [List.mem_singleton.mp hnew, ← htE]
    exact hblk.1.tIpE

theorem RMEntry.step_ordered {e e' : RMEntry} {now ts : ℚ} (h : e.OrderedUpTo now)
    (hts : now ≤ ts) {intf : Intf} {event : RMEvent} (hs : e.step ts intf event = .ok e') :
    e'.OrderedUpTo ts := by
  have hpast : ∀ record ∈ e.infoBlkList, record.tDhcpS ≤ ts := fun record hrecord =>
    (h.past record hrecord).trans hts
  have hdraft := h.draft
  cases event with
  | ipLost => exact RMEntry.lost_ordered h hts hs
  | dhcpStart =>
    simp only [RMEntry.step] at hs
    split at hs
    · cases hs
      exact ⟨h.records, hpast, ts, rfl, le_rfl, hpast⟩
    · cases hs
  | ipGet ip ipPrefix gw =>
    simp only [RMEntry.step] at hs
    split at hs
    · rename_i hstate
      cases hs
      simp only [RMEntry.DraftOrdered, hstate] at hdraft
      obtain ⟨s, hs, hle, hbefore⟩ := hdraft
      exact ⟨h.records, hpast, s, ts, hs, rfl, rfl, hle.trans hts, le_rfl, hbefore⟩
    · cases hs
  | dhcpServer ip | dnsServer ip =>
    cases hs
    refine ⟨h.records, hpast, ?_⟩
    unfold RMEntry.DraftOrdered at hdraft ⊢
    dsimp only
    split at hdraft
    · exact hdraft
    · obtain ⟨s, hs, hle, hbefore⟩ := hdraft
      exact ⟨s, hs, hle.trans hts, hbefore⟩
    · obtain ⟨s, t, hs, hE, hS, hst, hle, hbefore⟩ := hdraft
      exact ⟨s, t, hs, hE, hS, hst, hle.trans hts, hbefore⟩

/-- A row is read at the timestamp of its head. -/
theorem RMEntry.row_eq_ok {e e' : RMEntry} {row : Row} (h : e.row row = .ok e') :
    (RMEvent.ofRow row = none ∧ e' = e) ∨
      ∃ ts intf event, lineTime row = some ts ∧ e.step ts intf event = .ok e' := by
  unfold RMEntry.row at h
  split at h
  · rename_i hrow
    exact .inl ⟨hrow, (Except.ok.inj h).symm⟩
  · rename_i stamp intf event hrow
    obtain ⟨cut, hcut, hstamp, -⟩ := headCut_of_ofRow hrow
    split at h
    · cases h
    · rename_i ts hts
      exact .inr ⟨ts, intf, event, by simp [lineTime, hcut, ← hstamp, hts], h⟩

theorem RMEntry.rows_ordered {e e' : RMEntry} {now : ℚ} (h : e.OrderedUpTo now) {rows : List Row}
    (hnow : ∀ t ∈ rows.filterMap lineTime, now ≤ t) (htime : TimesOrdered rows)
    (hrows : rows.foldlM RMEntry.row e = .ok e') : DhcpOrdered e'.infoBlkList := by
  induction rows generalizing e now with
  | nil =>
    obtain rfl : e = e' := by simpa [pure, Except.pure] using hrows
    exact h.records
  | cons row rows ih =>
    obtain ⟨mid, hrow, hrest⟩ := foldlM_cons_eq_ok.mp hrows
    have htimes := htime
    rw [TimesOrdered, List.filterMap_cons] at htimes
    rcases RMEntry.row_eq_ok hrow with ⟨-, rfl⟩ | ⟨ts, intf, event, hts, hstep⟩
    · refine ih h (fun t ht => hnow t ?_) ?_ hrest
      · rw [List.filterMap_cons]
        split <;> simp [ht]
      · split at htimes
        · exact htimes
        · exact (List.pairwise_cons.mp htimes).2
    · simp only [hts] at htimes
      obtain ⟨hlater, htimes⟩ := List.pairwise_cons.mp htimes
      have hnow' : now ≤ ts := hnow ts (by simp [hts])
      exact ih (RMEntry.step_ordered h hnow' hstep) hlater htimes hrest

theorem RMParser.dhcpOrdered {intfList : List Intf} {rows : List Row}
    {out : Intf → List RMInfoBlk} (htime : TimesOrdered rows)
    (h : RMParser.parse intfList rows = .ok out) (intf : Intf) : DhcpOrdered (out intf) := by
  cases hentries : rows.foldlM (RMParser.parseRow intfList) (fun _ => {}) with
  | error e => simp [RMParser.parse, hentries, Except.map] at h
  | ok entries =>
    obtain rfl : (fun intf => (entries intf).infoBlkList) = out := by
      simpa [RMParser.parse, hentries, Except.map] using h
    have hfold := keyed_fold.mp (foldlM_keyed_of_parse hentries) intf
    have hown : TimesOrdered (rows.filter fun row => rmKey intfList row = some intf) :=
      htime.sublist (List.filter_sublist.filterMap lineTime)
    -- nothing is known of an empty entry, so the first timestamp can serve as the bound
    cases hts : (rows.filter fun row => rmKey intfList row = some intf).filterMap lineTime with
    | nil => exact RMEntry.rows_ordered (RMEntry.orderedUpTo_init 0) (by simp [hts]) hown hfold
    | cons t ts =>
      refine RMEntry.rows_ordered (RMEntry.orderedUpTo_init t) (fun u hu => ?_) hown hfold
      rw [TimesOrdered, hts] at hown
      rw [hts] at hu
      rcases List.mem_cons.mp hu with rfl | hu
      · exact le_rfl
      · exact (List.pairwise_cons.mp hown).1 u hu

/-! ## Both parsers -/

/-- What either parser returns for an interface, on a log in time order, is in time order. -/
theorem parse_records_ordered {rows : List Row} (htime : TimesOrdered rows)
    {intfList : List Intf} {intf : Intf} (hintf : intf ∈ intfList) :
    (∀ out, WPAParser.parse intfList rows = .ok out → ConnOrdered (out intf)) ∧
      ∀ out, RMParser.parse intfList rows = .ok out → DhcpOrdered (out intf) :=
  ⟨fun _ hout => WPAParser.connOrdered htime hout hintf,
    fun _ hout => RMParser.dhcpOrdered htime hout intf⟩

/-- Two connections, the first of them with an address. -/
def driveLog : List Row :=
  ["1.0: wlan0: State: DISCONNECTED -> SCANNING\n".toList,
   "2.0: wlan0: SME: Trying to authenticate with 02:00:00:00:00:0a (SSID='x' freq=2412 MHz)\n"
     |>.toList,
   "2.0: wlan0: State: SCANNING -> AUTHENTICATING\n".toList,
   "3.0: wlan0: State: AUTHENTICATING -> COMPLETED\n".toList,
   "3.1: wlan0: Acquiring DHCPv4 lease\n".toList,
   "3.5: wlan0: DHCPv4 address 10.0.0.2/24 via 10.0.0.1\n".toList,
   "4.0: wlan0: State: COMPLETED -> DISCONNECTED\n".toList,
   "4.1: wlan0: Lost carrier\n".toList,
   "5.0: wlan0: SME: Trying to authenticate with 02:00:00:00:00:0b (SSID='x' freq=2437 MHz)\n"
     |>.toList,
   "5.0: wlan0: State: DISCONNECTED -> AUTHENTICATING\n".toList,
   "6.0: wlan0: State: AUTHENTICATING -> COMPLETED\n".toList,
   "6.1: wlan0: Acquiring DHCPv4 lease\n".toList,
   "7.0: wlan0: State: COMPLETED -> DISCONNECTED\n".toList,
   "7.1: wlan0: Lost carrier\n".toList]

theorem driveLog_run : TimesOrdered driveLog ∧
    ((WPAParser.parse ["wlan0".toList] driveLog).toOption.map fun out =>
      ((out "wlan0".toList).filterMap InfoBlk.conn).length) = some 2 ∧
    ((RMParser.parse ["wlan0".toList] driveLog).toOption.map fun out =>
      (out "wlan0".toList).length) = some 2 := by
  simp only [driveLog, String.reduceToList]
  decide +kernel

theorem parse_records_ordered_driveLog :
    (∃ out, WPAParser.parse ["wlan0".toList] driveLog = .ok out ∧
      ((out "wlan0".toList).filterMap InfoBlk.conn).length = 2 ∧
      ConnOrdered (out "wlan0".toList)) ∧
    ∃ out, RMParser.parse ["wlan0".toList] driveLog = .ok out ∧
      (out "wlan0".toList).length = 2 ∧ DhcpOrdered (out "wlan0".toList) := by
  obtain ⟨htime, hwpa, hrm⟩ := driveLog_run
  obtain ⟨hconn, hdhcp⟩ := parse_records_ordered htime (List.mem_singleton_self "wlan0".toList)
  constructor
  · cases hout : WPAParser.parse ["wlan0".toList] driveLog with
    | error e => rw [hout] at hwpa; cases hwpa
    | ok out =>
      rw [hout] at hwpa
      exact ⟨out, rfl, Option.some.inj hwpa, hconn out hout⟩
  · cases hout : RMParser.parse ["wlan0".toList] driveLog with
    | error e => rw [hout] at hrm; cases hrm
    | ok out =>
      rw [hout] at hrm
      exact ⟨out, rfl, Option.some.inj hrm, hdhcp out hout⟩

end CarFi.Analyzer

import CarFi.Analyzer.WpaParser
import CarFi.Analyzer.RmParser

/-!
# The interfaces of a log do not interfere

Both parsers read one log in which the rows of all interfaces are mixed. For each of them, what
it returns for an interface is what it returns when it is given the rows of that interface only.
Every pattern of either parser starts with the common head, so a row is about the interface its
head names; the two passes are then keyed folds (`keyed_fold_own`).
-/
namespace CarFi.Analyzer

open Library Library.Regex Library.PyText

/-- The rows of one interface. -/
def linesOf (intf : Intf) (rows : List Row) : List Row :=
  rows.filter fun row => lineNic row = some intf

/-! ## wpa_supplicant -/

theorem lineNic_of_nicOf {row : Row} {intf : Intf} (h : nicOf row = some intf) :
    lineNic row = some intf := by
  obtain ⟨m, hm, rfl⟩ := Option.map_eq_some_iff.mp h
  have hre : nicRe = headRe none (some 1) ++ (Regex.star dot ++ eol) := rfl
  rw [hre, exec_headRe_eq] at hm
  obtain ⟨cut, hcut, hm⟩ := Option.bind_eq_some_iff.mp hm
  obtain ⟨m', hm', rfl⟩ := Option.map_eq_some_iff.mp hm
  have hrest : m'.group 1 = [] := group_eq_nil (by simp [Regex.star, eol]) hm'
  simp [lineNic, hcut, HeadCut.capture, hrest]

/-- The rows of an interface that the parser lists. -/
theorem listedNic_of_lineNic {intfList : List Intf} {intf : Intf} (hintf : intf ∈ intfList)
    {row : Row} (h : lineNic row = some intf) :
    listedNic intfList row = nicOf row ∧ (nicOf row = some intf ∨ nicOf row = none) := by
  cases hnic : nicOf row with
  | none => simp [listedNic, hnic]
  | some nic =>
    obtain rfl : nic = intf := Option.some.inj ((lineNic_of_nicOf hnic).symm.trans h)
    simp [listedNic, hnic, hintf]

theorem WPAParser.states_linesOf {intfList intfList' : List Intf} {rows : List Row}
    {states : Intf → ParsingState} {intf : Intf} (hintf : intf ∈ intfList)
    (hintf' : intf ∈ intfList') (h : WPAParser.states intfList rows = .ok states) :
    WPAParser.states intfList' (linesOf intf rows) =
      .ok (Function.update (fun _ => {}) intf (states intf)) := by
  refine keyed_fold_own h (fun row hrow => ?_) fun row hrow => ?_
  · have hnic : nicOf row = some intf := (Option.filter_eq_some_iff.mp hrow).1
    simpa using lineNic_of_nicOf hnic
  · have hrow : lineNic row = some intf := by simpa using hrow
    obtain ⟨hlist, hcases⟩ := listedNic_of_lineNic hintf hrow
    obtain ⟨hlist', -⟩ := listedNic_of_lineNic hintf' hrow
    exact ⟨by rw [hlist, hlist'], by rwa [hlist]⟩

/-! ## roamingd -/

/-- A row that reports an event has the head with its timestamp and its interface. -/
theorem headCut_of_ofRow {row : Row} {stamp : List Char} {intf : Intf} {event : RMEvent}
    (h : RMEvent.ofRow row = some (stamp, intf, event)) :
    ∃ cut, headCut row = some cut ∧ stamp = cut.stamp ∧ intf = cut.nic := by
  have hcut {r : Pattern} {m : Capture}
      (hr : r.all fun i => i.group != some 1 && i.group != some 2)
      (hm : exec (headRe (some 1) (some 2) ++ r) row = some m)
      (hgroups : stamp = m.group 1 ∧ intf = m.group 2) :
      ∃ cut, headCut row = some cut ∧ stamp = cut.stamp ∧ intf = cut.nic := by
    obtain ⟨cut, hc, h1, h2⟩ := exists_headCut hr hm
    exact ⟨cut, hc, hgroups.1.trans h1, hgroups.2.trans h2⟩
  unfold RMEvent.ofRow at h
  split at h
  · rename_i m hm
    refine hcut (r := dhcpStartRe.drop 7) (by decide) hm ?_
    simp_all
  split at h
  · rename_i m hm
    refine hcut (r := ipGetRe.drop 7) (by decide) hm ?_
    simp_all
  split at h
  · rename_i m hm
    refine hcut (r := ipLostRe.drop 7) (by decide) hm ?_
    simp_all
  split at h
  · rename_i m hm
    refine hcut (r := dhcpServerRe.drop 7) (by decide) hm ?_
    simp_all
  · obtain ⟨m, hm, heq⟩ := Option.map_eq_some_iff.mp h
    refine hcut (r := dnsServerRe.drop 7) (by decide) hm ?_
    simp_all

/-- The interface whose entry a row moves. -/
def rmKey (intfList : List Intf) (row : Row) : Option Intf :=
  ((RMEvent.ofRow row).map (·.2.1)).filter intfList.contains

theorem rmKey_eq {row : Row} {stamp : List Char} {intf : Intf} {event : RMEvent}
    (h : RMEvent.ofRow row = some (stamp, intf, event)) (intfList : List Intf) :
    rmKey intfList row = if intfList.contains intf then some intf else none := by
  by_cases hintf : intf ∈ intfList <;> simp [rmKey, h, hintf, Option.filter]

/-- What a row does to the entry of its interface. -/
def RMEntry.row (e : RMEntry) (row : Row) : Except PyError RMEntry :=
  match RMEvent.ofRow row with
  | none => .ok e
  | some (stamp, intf, event) =>
    match float stamp with
    | none => .error .valueError
    | some ts => e.step ts intf event

/-- The pass moves the entry of the row's interface only. -/
theorem keyed_of_parseRow {intfList : List Intf} {entries entries' : Intf → RMEntry} {row : Row}
    (h : RMParser.parseRow intfList entries row = .ok entries') :
    keyed (rmKey intfList) RMEntry.row entries row = .ok entries' := by
  unfold RMParser.parseRow at h
  split at h
  · rename_i hrow
    simpa [keyed, rmKey, hrow] using h
  · rename_i stamp intf event hrow
    split at h
    · cases h
    · rename_i ts hts
      by_cases hintf : intfList.contains intf = true
      · rw [if_pos hintf] at h
        simp only [keyed, rmKey_eq hrow, RMEntry.row, hrow, if_pos hintf, hts]
        cases hstep : (entries intf).step ts intf event with
        | error e => simp [hstep] at h
        | ok e => simpa [hstep] using h
      · rw [if_neg hintf] at h
        simpa only [keyed, rmKey_eq hrow, if_neg hintf] using h

/-- A row of a listed interface raises what the entry of the interface raises. -/
theorem parseRow_eq_keyed {intfList : List Intf} {intf : Intf} (hintf : intf ∈ intfList)
    (entries : Intf → RMEntry) {row : Row} (h : lineNic row = some intf) :
    RMParser.parseRow intfList entries row =
      keyed (rmKey intfList) RMEntry.row entries row := by
  unfold RMParser.parseRow
  split
  · rename_i hrow
    simp [keyed, rmKey, hrow]
  · rename_i stamp nic event hrow
    obtain ⟨cut, hcut, -, hnic⟩ := headCut_of_ofRow hrow
    obtain rfl : nic = intf := by
      rw [lineNic, hcut] at h
      exact hnic.trans (Option.some.inj h)
    simp only [keyed, rmKey_eq hrow, RMEntry.row, hrow, if_pos (List.contains_iff_mem.mpr hintf)]
    cases float stamp with
    | none => rfl
    | some ts =>
      dsimp only
      cases (entries nic).step ts nic event <;> rfl

theorem foldlM_keyed_of_parse {intfList : List Intf} {rows : List Row}
    {entries entries' : Intf → RMEntry}
    (h : rows.foldlM (RMParser.parseRow intfList) entries = .ok entries') :
    rows.foldlM (keyed (rmKey intfList) RMEntry.row) entries = .ok entries' := by
  induction rows generalizing entries with
  | nil => exact h
  | cons row rows ih =>
    obtain ⟨mid, hrow, hrows⟩ := foldlM_cons_eq_ok.mp h
    exact foldlM_cons_eq_ok.mpr ⟨mid, keyed_of_parseRow hrow, ih hrows⟩

theorem foldlM_parse_eq_keyed {intfList : List Intf} {intf : Intf} (hintf : intf ∈ intfList)
    {rows : List Row} (hrows : ∀ row ∈ rows, lineNic row = some intf)
    (entries : Intf → RMEntry) :
    rows.foldlM (RMParser.parseRow intfList) entries =
      rows.foldlM (keyed (rmKey intfList) RMEntry.row) entries := by
  induction rows generalizing entries with
  | nil => rfl
  | cons row rows ih =>
    have hrow := parseRow_eq_keyed hintf entries (hrows row (by simp))
    have ih := ih fun row hrow => hrows row (by simp [hrow])
    simp only [List.foldlM_cons, hrow, ih]

theorem RMParser.entries_linesOf {intfList intfList' : List Intf} {rows : List Row}
    {entries : Intf → RMEntry} {intf : Intf} (hintf : intf ∈ intfList)
    (hintf' : intf ∈ intfList')
    (h : rows.foldlM (RMParser.parseRow intfList) (fun _ => {}) = .ok entries) :
    (linesOf intf rows).foldlM (RMParser.parseRow intfList') (fun _ => {}) =
      .ok (Function.update (fun _ => {}) intf (entries intf)) := by
  have hlines : ∀ row ∈ linesOf intf rows, lineNic row = some intf := fun row hrow => by
    simpa using (List.mem_filter.mp hrow).2
  rw [foldlM_parse_eq_keyed hintf' hlines]
  refine keyed_fold_own (foldlM_keyed_of_parse h) (fun row hrow => ?_) fun row hrow => ?_
  · obtain ⟨⟨stamp, nic, event⟩, hrow, hnic⟩ :=
      Option.map_eq_some_iff.mp (Option.filter_eq_some_iff.mp hrow).1
    obtain ⟨cut, hcut, -, hcnic⟩ := headCut_of_ofRow hrow
    simpa [lineNic, hcut, ← hcnic] using hnic
  · have hrow : lineNic row = some intf := by simpa using hrow
    cases hevent : RMEvent.ofRow row with
    | none => simp [rmKey, hevent]
    | some e =>
      obtain ⟨stamp, nic, event⟩ := e
      obtain ⟨cut, hcut, -, hnic⟩ := headCut_of_ofRow hevent
      obtain rfl : nic = intf := by
        rw [lineNic, hcut] at hrow
        exact hnic.trans (Option.some.inj hrow)
      simp [rmKey_eq hevent, hintf, hintf']

/-! ## Both parsers -/

/-- What a parser that accepts the whole log returns for an interface is what it returns for the
rows of the interface alone, whatever other interfaces it then lists. -/
theorem parse_linesOf {intfList intfList' : List Intf} {intf : Intf} (hintf : intf ∈ intfList)
    (hintf' : intf ∈ intfList') (rows : List Row) :
    (∀ out, WPAParser.parse intfList rows = .ok out →
      (WPAParser.parse intfList' (linesOf intf rows)).map (· intf) = .ok (out intf)) ∧
    ∀ out, RMParser.parse intfList rows = .ok out →
      (RMParser.parse intfList' (linesOf intf rows)).map (· intf) = .ok (out intf) := by
  constructor
  · intro out hout
    cases hstates : WPAParser.states intfList rows with
    | error e => simp [WPAParser.parse, hstates, Except.map] at hout
    | ok states =>
      obtain rfl : (fun intf => (states intf).infoBlkList) = out := by
        simpa [WPAParser.parse, hstates, Except.map] using hout
      rw [WPAParser.parse, WPAParser.states_linesOf hintf hintf' hstates]
      simp [Except.map]
  · intro out hout
    cases hentries : rows.foldlM (RMParser.parseRow intfList) (fun _ => {}) with
    | error e => simp [RMParser.parse, hentries, Except.map] at hout
    | ok entries =>
      obtain rfl : (fun intf => (entries intf).infoBlkList) = out := by
        simpa [RMParser.parse, hentries, Except.map] using hout
      rw [RMParser.parse, RMParser.entries_linesOf hintf hintf' hentries]
      simp [Except.map]

/-- Two clients, and an interface that is not listed. -/
def mixedLog : List Row :=
  ["1.0: wlan0: Acquiring DHCPv4 lease\n".toList,
   "1.5: wlan1: Acquiring DHCPv4 lease\n".toList,
   "2.0: eth0: Lost carrier\n".toList,
   "2.5: wlan0: Lost carrier\n".toList,
   "3.0: wlan0: Acquiring DHCPv4 lease\n".toList]

theorem mixedLog_run :
    ((RMParser.parse ["wlan0".toList, "wlan1".toList] mixedLog).toOption.map fun out =>
      (out "wlan0".toList).length) = some 1 := by
  simp only [mixedLog, String.reduceToList]
  decide +kernel

theorem parse_linesOf_mixedLog :
    ∃ out, RMParser.parse ["wlan0".toList, "wlan1".toList] mixedLog = .ok out ∧
      (out "wlan0".toList).length = 1 ∧
      (RMParser.parse ["wlan0".toList] (linesOf "wlan0".toList mixedLog)).map (· "wlan0".toList) =
        .ok (out "wlan0".toList) := by
  have hrun := mixedLog_run
  cases hout : RMParser.parse ["wlan0".toList, "wlan1".toList] mixedLog with
  | error e =>
    rw [hout] at hrun
    cases hrun
  | ok out =>
    rw [hout] at hrun
    exact ⟨out, rfl, Option.some.inj hrun,
      (parse_linesOf (by simp) (by simp) mixedLog).2 out hout⟩

end CarFi.Analyzer

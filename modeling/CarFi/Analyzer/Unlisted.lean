import CarFi.Library.Skipping
import CarFi.Analyzer.LinkParser
import CarFi.Analyzer.WpaScanParser

/-!
# Lines of interfaces that are not listed

`LinkParser` and `WPAScanParser` keep records for a list of interfaces and look up the interface
of every record in it. `unlisted_lines_iff` says which lines of other interfaces do not matter:
in a link-monitor log the headers, but no signal line; in a wpa_supplicant log no scan result
unless an end tag follows it, and the lines that do not come between a scan result and the line
that decides whether it is a copy.
-/
namespace CarFi.Analyzer

open Library Library.Regex Library.PyText

/-! ## Link-monitor logs -/

namespace LinkLine

/-- The interface of the last header, until the signal line that belongs to it. -/
def owner (cur : Option Intf) : LinkLine → Option Intf
  | header _ intf => some intf
  | signal _ => none
  | other => cur

/-- A header counts if its interface is listed, and a signal line if its header does. -/
def listed (intfs : List Intf) (cur : Option Intf) : LinkLine → Bool
  | header _ intf => intfs.contains intf
  | signal _ => cur.any intfs.contains
  | other => true

/-- The number of the line can be converted. -/
def readable : LinkLine → Bool
  | header ts _ => (float ts).isSome
  | signal level => (signedFloat level).isSome
  | other => true

def isSignal : LinkLine → Bool
  | signal _ => true
  | _ => false

end LinkLine

namespace LinkParser

section Unlisted

variable (word : CharClass) (intfs : List Intf)

/-- The log without the lines of unlisted interfaces and the signal lines without a header. -/
def present (rows : List Row) : List Row :=
  kept (fun cur row => (LinkLine.ofRow word row).listed intfs cur)
    (fun cur row => (LinkLine.ofRow word row).owner cur) none rows

/-- The lines that are left out. -/
def absent (rows : List Row) : List Row :=
  leftOut (fun cur row => (LinkLine.ofRow word row).listed intfs cur)
    (fun cur row => (LinkLine.ofRow word row).owner cur) none rows

end Unlisted

/-- The run over the whole log and the run over the lines that count have filed the same links,
and they agree on the half-filled link when its interface is listed. -/
structure Agrees (intfs : List Intf) (cur : Option Intf) (s t : State) : Prop where
  links : s.links = t.links
  intf : s.link.intf = cur
  signal : s.link.signal = none
  signal' : t.link.signal = none
  link : ∀ intf ∈ cur, intf ∈ intfs → t.link = s.link

theorem line_of_readable {intfs : List Intf} {cur : Option Intf} {s t : State} {l : LinkLine}
    (h : Agrees intfs cur s t) (hlisted : l.listed intfs cur = true) (hread : l.readable = true) :
    ∃ s' t', line intfs s l = .ok s' ∧ line intfs t l = .ok t' ∧
      Agrees intfs (l.owner cur) s' t' := by
  cases l with
  | header ts intf =>
    obtain ⟨time, htime⟩ := Option.isSome_iff_exists.mp hread
    simp only [line, htime]
    refine ⟨_, _, rfl, rfl, h.links, rfl, h.signal, h.signal', fun _ _ _ => ?_⟩
    simp [h.signal, h.signal']
  | signal level =>
    obtain ⟨x, hx⟩ := Option.isSome_iff_exists.mp hread
    obtain ⟨intf, rfl, hintf⟩ : ∃ intf, cur = some intf ∧ intf ∈ intfs := by
      cases cur with
      | none => cases hlisted
      | some intf => exact ⟨intf, rfl, by simpa [LinkLine.listed] using hlisted⟩
    have hlink := h.link intf rfl hintf
    simp only [line, hx, State.append, h.intf, hlink, List.contains_iff_mem, hintf, if_true,
      ← h.links]
    exact ⟨_, _, rfl, rfl, rfl, rfl, rfl, rfl, fun _ _ _ => rfl⟩
  | other => exact ⟨s, t, rfl, rfl, h⟩

theorem line_of_not_readable {intfs : List Intf} {l : LinkLine} (hread : l.readable = false)
    (s : State) : line intfs s l = .error .valueError := by
  cases l with
  | header ts intf =>
    simp only [LinkLine.readable, Option.isSome_eq_false_iff, Option.isNone_iff_eq_none] at hread
    simp [line, hread]
  | signal level =>
    simp only [LinkLine.readable, Option.isSome_eq_false_iff, Option.isNone_iff_eq_none] at hread
    simp [line, hread]
  | other => cases hread

/-- A line that does not count has no effect if it is a header. -/
theorem line_of_unlisted {intfs : List Intf} {cur : Option Intf} {s t : State} {l : LinkLine}
    (h : Agrees intfs cur s t) (hlisted : l.listed intfs cur = false) (hread : l.readable = true)
    (hheader : l.isSignal = false) :
    ∃ s', line intfs s l = .ok s' ∧ Agrees intfs (l.owner cur) s' t := by
  cases l with
  | header ts intf =>
    obtain ⟨time, htime⟩ := Option.isSome_iff_exists.mp hread
    simp only [line, htime]
    refine ⟨_, rfl, h.links, rfl, h.signal, h.signal', ?_⟩
    simp only [LinkLine.owner, Option.mem_some_iff, forall_eq']
    exact fun hintf => absurd hintf (by simpa [LinkLine.listed] using hlisted)
  | signal level => cases hheader
  | other => cases hlisted

theorem line_of_unlisted_signal {intfs : List Intf} {cur : Option Intf} {s t : State}
    {l : LinkLine} (h : Agrees intfs cur s t) (hlisted : l.listed intfs cur = false)
    (hread : l.readable = true) (hsignal : l.isSignal = true) :
    line intfs s l = .error .keyError := by
  cases l with
  | header ts intf => cases hsignal
  | other => cases hsignal
  | signal level =>
    obtain ⟨x, hx⟩ := Option.isSome_iff_exists.mp hread
    simp only [line, hx, State.append, h.intf]
    cases cur with
    | none => rfl
    | some intf =>
      have hintf : ¬intfs.contains intf = true := by simpa [LinkLine.listed] using hlisted
      exact if_neg hintf

/-- The relation can be restored after any line that does not count. -/
theorem Agrees.exists_skipped {intfs : List Intf} {cur : Option Intf} {s t : State} {l : LinkLine}
    (h : Agrees intfs cur s t) (hlisted : l.listed intfs cur = false) :
    ∃ s', Agrees intfs (l.owner cur) s' t := by
  refine ⟨⟨{ intf := l.owner cur }, t.links⟩, rfl, rfl, rfl, h.signal',
    fun intf hcur hintf => ?_⟩
  cases l with
  | header ts nic =>
    obtain rfl : nic = intf := by simpa [LinkLine.owner] using hcur
    exact absurd hintf (by simpa [LinkLine.listed] using hlisted)
  | signal level => cases hcur
  | other => cases hlisted

theorem skips (word : CharClass) (intfs : List Intf) :
    Skips (fun s row => line intfs s (LinkLine.ofRow word row))
      (fun cur row => (LinkLine.ofRow word row).listed intfs cur)
      (fun cur row => (LinkLine.ofRow word row).owner cur)
      (fun row => (LinkLine.ofRow word row).readable = true)
      (fun row => (LinkLine.ofRow word row).readable = true ∧
        (LinkLine.ofRow word row).isSignal = false) (Agrees intfs) where
  step h hown hread := line_of_readable h hown hread
  fail _ _ hread := by
    rw [Bool.not_eq_true] at hread
    exact ⟨_, _, line_of_not_readable hread _, line_of_not_readable hread _⟩
  skip h hown hharm := line_of_unlisted h hown hharm.1 hharm.2
  raise {cur s t row} h hown hharm := by
    obtain ⟨s', hs'⟩ := h.exists_skipped hown
    cases hread : (LinkLine.ofRow word row).readable with
    | false => exact ⟨_, s', line_of_not_readable hread s, hs'⟩
    | true =>
      have hsignal : (LinkLine.ofRow word row).isSignal = true := by simpa [hread] using hharm
      exact ⟨_, s', line_of_unlisted_signal h hown hread hsignal, hs'⟩

theorem toOption_parse_iff (word : CharClass) (intfs : List Intf) (rows : List Row) :
    (parse word intfs rows).toOption = (parse word intfs (present word intfs rows)).toOption ↔
      (∀ row ∈ absent word intfs rows, (LinkLine.ofRow word row).readable = true ∧
        (LinkLine.ofRow word row).isSignal = false) ∨
      ∃ row ∈ present word intfs rows, (LinkLine.ofRow word row).readable = false := by
  have hinit : Agrees intfs none {} {} := ⟨rfl, rfl, rfl, rfl, fun _ h => by cases h⟩
  have h := (skips word intfs).toOption_foldlM_iff (·.links) (fun h => h.links) hinit rows
  have hmap : ∀ x : Except PyError State, ((·.links) <$> x).toOption =
      x.toOption.map (·.links) := by
    intro x
    cases x <;> rfl
  simpa only [parse, present, absent, hmap, Bool.not_eq_true] using h

end LinkParser

/-! ## Logs of wpa_supplicant -/

/-- The log without the lines of unlisted interfaces. -/
def WPAScanParser.present (intfs : List Intf) (rows : List Row) : List Row :=
  rows.filter fun row => (lineNic row).all intfs.contains

theorem lineNic_of_scanNic {row : Row} {nic : Intf} (h : scanNic row = some nic) :
    lineNic row = some nic := by
  obtain ⟨m, hm, rfl⟩ := Option.map_eq_some_iff.mp h
  obtain ⟨cut, hcut, -, hnic⟩ := exists_headCut (r := scanApRe.drop 7) (by decide) hm
  simp [lineNic, hcut, hnic]

namespace WPAScanParser

/-- Whether a scan result is a copy is decided by the line after it. For a result of a listed
interface this must be the same without the unlisted lines, and a result of another interface must
be a copy. -/
def Undisturbed (intfs : List Intf) (row : Row) (after : List Row) : Prop :=
  ∀ nic ∈ scanNic row,
    (nic ∈ intfs → after.head?.any isEndTag = (present intfs after).head?.any isEndTag) ∧
    (nic ∉ intfs → after.head?.any isEndTag = true)

theorem scanRecord_eq_iff {row : Row} {nic : Intf} (h : scanNic row = some nic)
    (next next' : Option Row) :
    scanRecord row next = scanRecord row next' ↔ next.any isEndTag = next'.any isEndTag := by
  obtain ⟨m, hm, -⟩ := Option.map_eq_some_iff.mp h
  simp only [scanRecord, hm]
  cases next.any isEndTag <;> cases next'.any isEndTag <;> simp

theorem scanRecord_eq_none_iff {row : Row} {nic : Intf} (h : scanNic row = some nic)
    (next : Option Row) : scanRecord row next = none ↔ next.any isEndTag = true := by
  obtain ⟨m, hm, -⟩ := Option.map_eq_some_iff.mp h
  simp [scanRecord, hm]

theorem scanRecord_of_scanNic_eq_none {row : Row} (h : scanNic row = none) (next : Option Row) :
    scanRecord row next = none := by
  have hm : exec scanApRe row = none := by simpa [scanNic] using h
  simp [scanRecord, hm]

theorem scanRecords_present {intfs : List Intf} {rows : List Row}
    (h : ∀ row after, row :: after <:+ rows → Undisturbed intfs row after) :
    scanRecords (present intfs rows) = scanRecords rows := by
  induction rows with
  | nil => rfl
  | cons row rows ih =>
    have hrest := ih fun r after hr => h r after (hr.trans (List.suffix_cons row rows))
    have hrow := h row rows List.suffix_rfl
    rw [scanRecords, ← hrest]
    by_cases hlisted : (lineNic row).all intfs.contains = true
    · rw [present, List.filter_cons_of_pos (by exact hlisted), scanRecords]
      congr 2
      cases hnic : scanNic row with
      | none => rw [scanRecord_of_scanNic_eq_none hnic, scanRecord_of_scanNic_eq_none hnic]
      | some nic =>
        have hmem : nic ∈ intfs := by simpa [lineNic_of_scanNic hnic] using hlisted
        exact ((scanRecord_eq_iff hnic _ _).mpr ((hrow nic hnic).1 hmem)).symm
    · have hnone : scanRecord row rows.head? = none := by
        cases hnic : scanNic row with
        | none => exact scanRecord_of_scanNic_eq_none hnic _
        | some nic =>
          have hmem : nic ∉ intfs := by simpa [lineNic_of_scanNic hnic] using hlisted
          exact (scanRecord_eq_none_iff hnic _).mpr ((hrow nic hnic).2 hmem)
      rw [present, List.filter_cons_of_neg (by exact hlisted), hnone]
      rfl

/-- Without the unlisted lines nothing is looked up in vain. -/
theorem listed_of_mem_present {intfs : List Intf} {rows : List Row} {obj : WPAScanObj}
    (h : obj ∈ scanRecords (present intfs rows)) : obj.intf ∈ intfs := by
  obtain ⟨row, hrow, hnic⟩ := exists_of_mem_scanRecords h
  have hlisted := (List.mem_filter.mp hrow).2
  simpa [lineNic_of_scanNic hnic] using hlisted

/-- The parser returns, with the same records, and each of them from the same row. -/
theorem parse_present_iff (intfs : List Intf) (rows : List Row) :
    (∃ out, parse intfs rows = .ok out ∧ parse intfs (present intfs rows) = .ok out ∧
      ∀ row after, row :: after <:+ rows → (∃ nic ∈ scanNic row, nic ∈ intfs) →
        scanRecord row after.head? = scanRecord row (present intfs after).head?) ↔
      ∀ row after, row :: after <:+ rows → Undisturbed intfs row after := by
  constructor
  · rintro ⟨out, hout, -, hrows⟩ row after hsuffix nic hnic
    constructor
    · intro hmem
      exact (scanRecord_eq_iff hnic _ _).mp (hrows row after hsuffix ⟨nic, hnic, hmem⟩)
    · intro hmem
      rw [← scanRecord_eq_none_iff hnic]
      by_contra hsome
      obtain ⟨obj, hobj⟩ := Option.ne_none_iff_exists'.mp hsome
      obtain ⟨before, rfl⟩ := hsuffix
      obtain rfl : obj.intf = nic := Option.some.inj ((scanNic_of_scanRecord hobj).symm.trans hnic)
      rw [parse_eq] at hout
      split_ifs at hout with hall
      exact hmem (hall obj (mem_scanRecords hobj))
  · intro h
    have hrec := scanRecords_present h
    have hall : ∀ obj ∈ scanRecords rows, obj.intf ∈ intfs := fun obj hobj =>
      listed_of_mem_present (hrec ▸ hobj)
    refine ⟨fun nic => (scanRecords rows).filter (·.intf = nic), ?_, ?_, ?_⟩
    · rw [parse_eq, if_pos hall]
    · rw [parse_eq, hrec, if_pos hall]
    · rintro row after hsuffix ⟨nic, hnic, hmem⟩
      exact (scanRecord_eq_iff hnic _ _).mpr ((h row after hsuffix nic hnic).1 hmem)

end WPAScanParser

/-! ## Both parsers -/

/-- When the lines of unlisted interfaces do not matter. A link-monitor log is read as without
them if they are headers with a timestamp that can be converted, or if the listed lines make the
parser raise anyway. -/
theorem unlisted_lines_iff (word : CharClass) (intfs : List Intf) (linkLog wpaLog : List Row) :
    ((LinkParser.parse word intfs linkLog).toOption =
        (LinkParser.parse word intfs (LinkParser.present word intfs linkLog)).toOption ↔
      (∀ row ∈ LinkParser.absent word intfs linkLog,
        (LinkLine.ofRow word row).readable = true ∧
        (LinkLine.ofRow word row).isSignal = false) ∨
      ∃ row ∈ LinkParser.present word intfs linkLog,
        (LinkLine.ofRow word row).readable = false) ∧
    ((∃ out, WPAScanParser.parse intfs wpaLog = .ok out ∧
        WPAScanParser.parse intfs (WPAScanParser.present intfs wpaLog) = .ok out ∧
        ∀ row after, row :: after <:+ wpaLog → (∃ nic ∈ scanNic row, nic ∈ intfs) →
          scanRecord row after.head? = scanRecord row (WPAScanParser.present intfs after).head?) ↔
      ∀ row after, row :: after <:+ wpaLog → WPAScanParser.Undisturbed intfs row after) :=
  ⟨LinkParser.toOption_parse_iff word intfs linkLog,
    WPAScanParser.parse_present_iff intfs wpaLog⟩

/-- The class `\w` on ASCII texts. -/
def asciiWord : CharClass := fun c => asciiLetter c || ascii09 c || c == '_'

def signalLine : Row := "2.5 Link Quality=60/70  Signal level=-50 dBm\n".toList

def wlan1Header : Row := "2.0 wlan1 IEEE 802.11 ESSID:off\n".toList

def wlan1Scan : Row :=
  ("1.5: wlan1: 0: 00:11:22:33:44:55 ssid='it' level=-50 freq=5180 11g=no 11n=yes 11ac=no " ++
    "\n").toList

/-- A signal line without a header, one after the header of another interface, and a scan result
of another interface each make the parser raise; without them there is nothing left to read. -/
theorem unlisted_lines_raise :
    (LinkParser.parse asciiWord ["wlan0".toList] [signalLine]).isOk = false ∧
    (LinkParser.parse asciiWord ["wlan0".toList] [wlan1Header, signalLine]).isOk = false ∧
    LinkParser.present asciiWord ["wlan0".toList] [wlan1Header, signalLine] = [] ∧
    (WPAScanParser.parse ["wlan0".toList] [wlan1Scan]).isOk = false ∧
    WPAScanParser.present ["wlan0".toList] [wlan1Scan] = [] := by
  refine ⟨?_, ?_, ?_, ?_, ?_⟩ <;> decide +kernel

end CarFi.Analyzer

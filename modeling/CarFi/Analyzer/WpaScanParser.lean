import CarFi.Analyzer.WpaParser

/-!
# The parser of the scan results in wpa_supplicant logs

`WPAScanParser` of `analyzer/lib/wpa_scan_parser.py`. Every row with a scan result gives a record
of its interface, unless the next row of the log is an end tag: the result that was selected is
printed a second time before such a tag.
-/
namespace CarFi.Analyzer

open Library Library.Regex Library.PyText

/-- `WiFiVersion` -/
inductive WiFiVersion where
  | g | n | ac | o
  deriving DecidableEq, Repr

/-! ## Patterns -/

def notQuote : CharClass := fun c => c != '\''
def lower : CharClass := fun c => 'a'.toNat ≤ c.toNat && c.toNat ≤ 'z'.toNat

/-- The flags after the frequency. -/
def flagsRe : Pattern :=
  Regex.star dot ++ lit "11g=" ++ grp 7 (plus lower) ++ Regex.star dot ++ lit "11n=" ++
  grp 8 (plus lower) ++ Regex.star dot ++ lit "11ac=" ++ grp 9 (plus lower) ++ Regex.star dot ++ eol

def freqFlagsRe : Pattern :=
  Regex.star dot ++ (lit "freq=" ++ (grp 6 (plus decimal) ++ flagsRe))

/-- What follows the SSID. -/
def levelFlagsRe : Pattern :=
  Regex.star dot ++ (lit "level=" ++ (grp 5 (plus levelClass) ++ freqFlagsRe))

def scanApRe : Pattern :=
  grp 1 (plus stampClass) ++ lit ":" ++ Regex.star space ++ grp 2 (plus nicClass) ++ lit ":" ++
  Regex.star space ++ plus decimal ++ lit ":" ++ Regex.star space ++ grp 3 (plus macClass) ++
  Regex.star space ++ lit "ssid='" ++ grp 4 (Regex.star notQuote) ++ lit "'" ++ levelFlagsRe

def endTag : Pattern :=
  grp 1 (plus stampClass) ++ lit ":" ++ Regex.star space ++ grp 2 (plus nicClass) ++ lit ":" ++
  Regex.star space ++ lit "*************" ++ Regex.star space ++ eol

/-! ## The parser -/

/-- `WPAScanObj`: all fields but the version are kept as texts. -/
structure WPAScanObj where
  time : List Char
  intf : Intf
  mac : List Char
  ssid : List Char
  level : List Char
  freq : List Char
  wifiType : WiFiVersion
  deriving DecidableEq, Repr

/-- `if ac: ... elif n: ... elif g: ... else: ...` on the texts of the flags: every text but the
empty one is true. -/
def wifiTypeOf (g n ac : List Char) : WiFiVersion :=
  if ac ≠ [] then .ac else if n ≠ [] then .n else if g ≠ [] then .g else .o

def WPAScanObj.ofMatch (m : Capture) : WPAScanObj where
  time := m.group 1
  intf := m.group 2
  mac := m.group 3
  ssid := m.group 4
  level := m.group 5
  freq := m.group 6
  wifiType := wifiTypeOf (m.group 7) (m.group 8) (m.group 9)

def isEndTag (row : Row) : Bool := (exec endTag row).isSome

/-- The record of a row, which depends on the row after it. -/
def scanRecord (row : Row) (next : Option Row) : Option WPAScanObj :=
  match exec scanApRe row with
  | none => none
  | some m => if next.any isEndTag then none else some (.ofMatch m)

/-- One turn of the loop; `scan_ap_dict` has the keys of the list of interfaces. -/
def WPAScanParser.row (intfList : List Intf) (dict : Intf → List WPAScanObj) (row : Row)
    (next : Option Row) : Except PyError (Intf → List WPAScanObj) :=
  match scanRecord row next with
  | none => .ok dict
  | some obj =>
    if intfList.contains obj.intf then
      .ok (Function.update dict obj.intf (dict obj.intf ++ [obj]))
    else .error .keyError

def WPAScanParser.loop (intfList : List Intf) (dict : Intf → List WPAScanObj) :
    List Row → Except PyError (Intf → List WPAScanObj)
  | [] => .ok dict
  | row :: rows =>
    match WPAScanParser.row intfList dict row rows.head? with
    | .error e => .error e
    | .ok dict => WPAScanParser.loop intfList dict rows

/-- `WPAScanParser.parse` -/
def WPAScanParser.parse (intfList : List Intf) (rows : List Row) :
    Except PyError (Intf → List WPAScanObj) :=
  WPAScanParser.loop intfList (fun _ => []) rows

/-! ## The records of a log -/

/-- The interface of a row with a scan result. -/
def scanNic (row : Row) : Option Intf := (exec scanApRe row).map (·.group 2)

/-- The rows that give records, whatever their interfaces are. -/
def scanRecords : List Row → List WPAScanObj
  | [] => []
  | row :: rows => (scanRecord row rows.head?).toList ++ scanRecords rows

theorem scanNic_of_scanRecord {row : Row} {next : Option Row} {obj : WPAScanObj}
    (h : scanRecord row next = some obj) : scanNic row = some obj.intf := by
  rw [scanRecord] at h
  split at h
  · cases h
  · rename_i m hm
    split_ifs at h
    cases h
    rw [scanNic, hm]
    rfl

theorem mem_scanRecords {row : Row} {before after : List Row} {obj : WPAScanObj}
    (h : scanRecord row after.head? = some obj) : obj ∈ scanRecords (before ++ row :: after) := by
  induction before with
  | nil => simp [scanRecords, h]
  | cons r before ih => exact List.mem_append_right _ ih

theorem exists_of_mem_scanRecords {rows : List Row} {obj : WPAScanObj}
    (h : obj ∈ scanRecords rows) : ∃ row ∈ rows, scanNic row = some obj.intf := by
  induction rows with
  | nil => cases h
  | cons row rows ih =>
    rcases List.mem_append.mp h with h | h
    · exact ⟨row, by simp, scanNic_of_scanRecord (by simpa using h)⟩
    · obtain ⟨r, hr, hnic⟩ := ih h
      exact ⟨r, by simp [hr], hnic⟩

/-- The loop files every record under its interface, and stops at the first one that is not
listed. -/
theorem WPAScanParser.loop_eq (intfList : List Intf) (dict : Intf → List WPAScanObj)
    (rows : List Row) :
    WPAScanParser.loop intfList dict rows =
      if ∀ obj ∈ scanRecords rows, obj.intf ∈ intfList then
        .ok fun nic => dict nic ++ (scanRecords rows).filter (·.intf = nic)
      else .error .keyError := by
  induction rows generalizing dict with
  | nil => simp [WPAScanParser.loop, scanRecords]
  | cons row rows ih =>
    rw [WPAScanParser.loop, WPAScanParser.row, scanRecords]
    cases hrec : scanRecord row rows.head? with
    | none => exact ih dict
    | some obj =>
      by_cases hlisted : obj.intf ∈ intfList
      · simp only [List.contains_iff_mem, hlisted, if_true, ih, Option.toList_some,
          List.singleton_append, List.forall_mem_cons, true_and]
        refine if_congr Iff.rfl ?_ rfl
        congr 1
        funext nic
        rcases eq_or_ne nic obj.intf with rfl | hne
        · simp
        · simp [hne, hne.symm]
      · simp [hlisted]

theorem WPAScanParser.parse_eq (intfList : List Intf) (rows : List Row) :
    WPAScanParser.parse intfList rows =
      if ∀ obj ∈ scanRecords rows, obj.intf ∈ intfList then
        .ok fun nic => (scanRecords rows).filter (·.intf = nic)
      else .error .keyError := by
  rw [WPAScanParser.parse, WPAScanParser.loop_eq]
  rfl

end CarFi.Analyzer

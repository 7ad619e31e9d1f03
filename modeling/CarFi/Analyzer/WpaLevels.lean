import CarFi.Analyzer.WpaBlocks

/-!
# The signal level of a record

For an attempt that follows a scan, the parser looks backwards from the authentication for
the row that names the selected BSS, and reads the level two rows above it. The loop does not
stop at the row it looks for, so what is kept is the level of the *first* selection of the
block.
-/
namespace CarFi.Analyzer

open Library Library.Regex Library.PyText

def isSelection (row : Row) : Bool := (exec bssRe row).isSome

/-- The rows of a block up to the last authentication. -/
def untilAuth (blk : List Row) : List Row :=
  match lastIdx? (enters .authing) blk with
  | some i => blk.take (i + 1)
  | none => []

def firstSelection (blk : List Row) : Option Nat := (untilAuth blk).findIdx? isSelection
def lastSelection (blk : List Row) : Option Nat := lastIdx? isSelection (untilAuth blk)

/-- The level printed for the selection at the row `i`: the supplicant prints the BSS with its
level, a separator, and the selection. -/
def printedLevel (blk : List Row) : Nat → Option Int
  | i + 2 => blk[i]?.bind fun row => (exec ssRe row).bind fun m => int (m.group 1)
  | _ => none

def selectedBssid (blk : List Row) (i : Nat) : Option (List Char) :=
  blk[i]?.bind fun row => (exec bssRe row).map (·.group 3)

/-- The authentication request names the BSS selected last. -/
def SmeNamesLastSelected (blk : List Row) : Prop :=
  ∀ i j m, lastIdx? (enters .authing) blk = some (i + 1) → lastSelection blk = some j →
    blk[i]?.bind (exec freqRe) = some m → selectedBssid blk j = some (m.group 1)

/-- The record is of a new association, with the level and the BSSID of the last selection
before its authentication. -/
def LevelOfLastSelected (blk : List Row) (record : InfoBlk) : Prop :=
  ∃ i level, lastSelection blk = some i ∧ printedLevel blk i = some level ∧
    record.type = some .new ∧ record.level = some level ∧ record.bssid = selectedBssid blk i

/-- A BSS was selected before the authentication, and the level read for the first selection
is the level printed for the last one. -/
def FirstLevelIsLast (blk : List Row) : Prop :=
  ∃ first last level, firstSelection blk = some first ∧ lastSelection blk = some last ∧
    printedLevel blk last = some level ∧ levelAt blk first = .ok level

theorem smeNamesLastSelected_of_eq {blk : List Row} {i last : Nat}
    (hauth : lastIdx? (enters .authing) blk = some (i + 1)) (hlast : lastSelection blk = some last)
    (hbssid : (blk[i]?.bind (exec freqRe)).map (·.group 1) = selectedBssid blk last) :
    SmeNamesLastSelected blk := by
  intro i' j m hi hj hm
  obtain rfl : i = i' := by simpa [hauth] using hi
  obtain rfl : last = j := by simpa [hlast] using hj
  rw [← hbssid, hm]
  rfl

/-! ## The loop -/

theorem levelStep_eq_ok {blk : List Row} {index : Nat} {level level' : Option Int}
    (h : levelStep blk index level = .ok level') :
    ∃ row, blk[index]? = some row ∧
      ((isSelection row = true ∧ ∃ l, levelAt blk index = .ok l ∧ level' = some l) ∨
        (isSelection row = false ∧ level' = level)) := by
  unfold levelStep at h
  cases hrow : blk[index]? with
  | none => simp [hrow] at h
  | some row =>
    refine ⟨row, rfl, ?_⟩
    cases hsel : isSelection row with
    | true =>
      cases hl : levelAt blk index with
      | error e => simp [hrow, isSelection] at hsel h; simp [hsel, hl, Except.map] at h
      | ok l =>
        simp only [isSelection] at hsel
        exact .inl ⟨rfl, l, rfl, by simpa [hrow, hsel, hl, Except.map] using h.symm⟩
    | false =>
      simp only [isSelection] at hsel
      exact .inr ⟨rfl, by simpa [hrow, hsel] using h.symm⟩

/-- The loop keeps what it read last, which is the level of the first selection. -/
theorem levelLoop_eq_ok {blk : List Row} {n : Nat} {level res : Option Int}
    (h : levelLoop blk n level = .ok res) :
    match (blk.take (n + 1)).findIdx? isSelection with
    | some first => ∃ l, levelAt blk first = .ok l ∧ res = some l
    | none => res = level := by
  induction n generalizing level with
  | zero =>
    obtain ⟨row, hrow, hstep⟩ := levelStep_eq_ok h
    obtain ⟨rest, rfl⟩ : ∃ rest, blk = row :: rest := by
      cases blk with
      | nil => simp at hrow
      | cons b rest => exact ⟨rest, by simpa using hrow⟩
    rcases hstep with ⟨hsel, hl⟩ | ⟨hsel, hl⟩ <;> simpa [List.findIdx?_cons, hsel] using hl
  | succ n ih =>
    simp only [levelLoop] at h
    cases hstep : levelStep blk (n + 1) level with
    | error e => simp [hstep] at h
    | ok mid =>
      simp only [hstep] at h
      have hloop := ih h
      obtain ⟨row, hrow, hstep⟩ := levelStep_eq_ok hstep
      rw [List.take_add_one (i := n + 1), hrow, List.findIdx?_append]
      cases hfirst : (blk.take (n + 1)).findIdx? isSelection with
      | some first => simpa [hfirst] using hloop
      | none =>
        have hlen : (blk.take (n + 1)).length = n + 1 := by
          have := (List.getElem?_eq_some_iff.mp hrow).1
          simp
          omega
        simp only [hfirst] at hloop
        subst hloop
        rcases hstep with ⟨hsel, hl⟩ | ⟨hsel, hl⟩ <;>
          simpa [List.findIdx?_cons, hsel, hlen] using hl

/-! ## Records -/

/-- The level of a record of a new association is the level read for the first selection. -/
theorem InfoBlk.ReadFrom.level_of_first {record : InfoBlk} {blk : List Row} {i : Nat}
    {ids : Indices} (h : record.ReadFrom blk (i + 1) ids false)
    (hi : lastIdx? (enters .authing) blk = some (i + 1)) :
    match firstSelection blk with
    | some first => ∃ l, levelAt blk first = .ok l ∧ record.level = some l
    | none => record.level = none := by
  have hlevel : levelLoop blk (i + 1) none = .ok record.level := by
    simpa [selectionLevel] using h.level
  simpa [firstSelection, untilAuth, hi] using levelLoop_eq_ok hlevel

theorem InfoBlk.ReadFrom.bssid_of_last {record : InfoBlk} {blk : List Row} {i last : Nat}
    {ids : Indices} {isReassoc : Bool} (h : record.ReadFrom blk (i + 1) ids isReassoc)
    (hsuccess : record.success = true) (hi : lastIdx? (enters .authing) blk = some (i + 1))
    (hlast : lastSelection blk = some last) (hsme : SmeNamesLastSelected blk) :
    record.bssid = selectedBssid blk last := by
  obtain ⟨freqMatch, hfreq, hbssid, hmatch⟩ := h.freq
  obtain ⟨m, rfl⟩ := Option.isSome_iff_exists.mp (hmatch ▸ hsuccess)
  rw [freqMatchAt_succ] at hfreq
  cases hrow : blk[i]? with
  | none => simp [hrow] at hfreq
  | some row =>
    have hm : exec freqRe row = some m := by simpa [hrow] using hfreq
    rw [hbssid, hsme i last m hi hlast (by simp [hrow, hm])]
    rfl

theorem levelOfLastSelected_iff {blk : List Row} {record : InfoBlk}
    (h : blockRecord blk = .ok (some record)) (hnew : isReassocBlock blk = false)
    (hsme : SmeNamesLastSelected blk) :
    LevelOfLastSelected blk record ↔ FirstLevelIsLast blk := by
  obtain ⟨i, hi, hsuccess, hread⟩ := blockRecord_eq_some h
  rw [hnew] at hread
  have hfirst := hread.level_of_first hi
  constructor
  · rintro ⟨last, level, hlast, hprinted, -, hlevel, -⟩
    cases hf : firstSelection blk with
    | none => simp [hf, hlevel] at hfirst
    | some first =>
      obtain ⟨l, hl, hrecord⟩ := by simpa [hf] using hfirst
      obtain rfl : l = level := by simpa [hlevel] using hrecord.symm
      exact ⟨first, last, l, hf, hlast, hprinted, hl⟩
  · rintro ⟨first, last, level, hf, hlast, hprinted, hl⟩
    obtain ⟨l, hl', hrecord⟩ := by simpa [hf] using hfirst
    obtain rfl : l = level := Except.ok.inj (hl'.symm.trans hl)
    refine ⟨last, l, hlast, hprinted, ?_, hrecord, hread.bssid_of_last hsuccess hi hlast hsme⟩
    simpa [hrecord] using hread.type

/-- On an accepted log, the records of new associations carry the level of the BSS selected
last exactly when, in each block they come from, the level of the first selection is the
level of the last one. -/
theorem parse_level_iff {intfList : List Intf} {rows : List Row} {out : Intf → List InfoBlk}
    (h : WPAParser.parse intfList rows = .ok out)
    (hsme : ∀ intf ∈ intfList, ∀ blk ∈ blocksOf intf rows, SmeNamesLastSelected blk) :
    (∀ intf ∈ intfList, ∀ blk ∈ blocksOf intf rows, isReassocBlock blk = false →
      ∀ record ∈ out intf, blockRecord blk = .ok (some record) →
        LevelOfLastSelected blk record) ↔
    ∀ intf ∈ intfList, ∀ blk ∈ blocksOf intf rows, isReassocBlock blk = false →
      RequestsAuth blk → FirstLevelIsLast blk := by
  refine forall₂_congr fun intf hintf => forall₂_congr fun blk hblk => ?_
  refine forall_congr' fun hnew => ?_
  constructor
  · intro hall hauth
    obtain ⟨record, hrecord⟩ := (exists_record_iff_requestsAuth h hintf hblk).mpr hauth
    have hmem := (mem_parse h hintf).mpr ⟨blk, hblk, hrecord⟩
    exact (levelOfLastSelected_iff hrecord hnew (hsme intf hintf blk hblk)).mp
      (hall record hmem hrecord)
  · intro hall record _ hrecord
    have hauth := (exists_record_iff_requestsAuth h hintf hblk).mp ⟨record, hrecord⟩
    exact (levelOfLastSelected_iff hrecord hnew (hsme intf hintf blk hblk)).mpr (hall hauth)

/-! ## Two scans that select one BSS -/

/-- A client that scans twice, and sees the BSS that it selects with one level. -/
def steadyLog : List Row :=
  ["1.0: wlan0: State: DISCONNECTED -> SCANNING\n".toList,
   "2.0: wlan0: 1: 02:00:00:00:00:0a ssid='x' level=-40 freq=2412\n".toList,
   "2.0: wlan0:    *************\n".toList,
   "2.0: wlan0:    selected BSS 02:00:00:00:00:0a ssid='x'\n".toList,
   "3.0: wlan0: 1: 02:00:00:00:00:0a ssid='x' level=-40 freq=2412\n".toList,
   "3.0: wlan0:    *************\n".toList,
   "3.0: wlan0:    selected BSS 02:00:00:00:00:0a ssid='x'\n".toList,
   "3.0: wlan0: SME: Trying to authenticate with 02:00:00:00:00:0a (SSID='x' freq=2412 MHz)\n"
     |>.toList,
   "3.0: wlan0: State: SCANNING -> AUTHENTICATING\n".toList,
   "4.0: wlan0: State: AUTHENTICATING -> DISCONNECTED\n".toList]

theorem steadyLog_run :
    emits (fun _ => true) ["wlan0".toList] steadyLog "wlan0".toList ∧
    blocksOf "wlan0".toList steadyLog = [steadyLog] ∧ isReassocBlock steadyLog = false ∧
    lastIdx? (enters .authing) steadyLog = some 8 ∧ firstSelection steadyLog = some 3 ∧
    lastSelection steadyLog = some 6 ∧ printedLevel steadyLog 6 = some (-40) ∧
    levelAt steadyLog 3 = .ok (-40) ∧
    (steadyLog[7]?.bind (exec freqRe)).map (·.group 1) = selectedBssid steadyLog 6 := by
  simp only [steadyLog, String.reduceToList]
  decide +kernel

/-- The log has a record, and it carries the level of the second selection. -/
theorem parse_level_iff_steadyLog :
    ∃ out, WPAParser.parse ["wlan0".toList] steadyLog = .ok out ∧
      ∃ record ∈ out "wlan0".toList, LevelOfLastSelected steadyLog record := by
  obtain ⟨hemits, hblocks, hnew, hauth, hfirst, hlast, hprinted, hlevel, hbssid⟩ :=
    steadyLog_run
  obtain ⟨out, hout, record, hrecord, -⟩ := exists_record_of_emits hemits
  obtain ⟨blk, hblk, hread⟩ := (mem_parse hout (by simp)).mp hrecord
  obtain rfl : blk = steadyLog := List.mem_singleton.mp (hblocks ▸ hblk)
  have hsme := smeNamesLastSelected_of_eq hauth hlast hbssid
  have hlevels := parse_level_iff hout fun intf hintf blk hblk => by
    obtain rfl : intf = "wlan0".toList := List.mem_singleton.mp hintf
    obtain rfl : blk = steadyLog := List.mem_singleton.mp (hblocks ▸ hblk)
    exact hsme
  refine ⟨out, hout, record, hrecord, hlevels.mpr ?_ _ (by simp) _ hblk hnew _ hrecord hread⟩
  intro intf hintf blk hblk _ _
  obtain rfl : intf = "wlan0".toList := List.mem_singleton.mp hintf
  obtain rfl : blk = steadyLog := List.mem_singleton.mp (hblocks ▸ hblk)
  exact ⟨3, 6, -40, hfirst, hlast, hprinted, hlevel⟩

/-! ## Two scans that select two BSSs -/

/-- A client that scans twice and selects another BSS the second time. -/
def rescanLog : List Row :=
  ["1.0: wlan0: State: DISCONNECTED -> SCANNING\n".toList,
   "2.0: wlan0: 1: 02:00:00:00:00:0a ssid='x' level=-40 freq=2412\n".toList,
   "2.0: wlan0:    *************\n".toList,
   "2.0: wlan0:    selected BSS 02:00:00:00:00:0a ssid='x'\n".toList,
   "3.0: wlan0: 1: 02:00:00:00:00:0b ssid='x' level=-70 freq=2437\n".toList,
   "3.0: wlan0:    *************\n".toList,
   "3.0: wlan0:    selected BSS 02:00:00:00:00:0b ssid='x'\n".toList,
   "3.0: wlan0: SME: Trying to authenticate with 02:00:00:00:00:0b (SSID='x' freq=2437 MHz)\n"
     |>.toList,
   "3.0: wlan0: State: SCANNING -> AUTHENTICATING\n".toList,
   "4.0: wlan0: State: AUTHENTICATING -> DISCONNECTED\n".toList]

theorem rescanLog_run :
    emits (fun record => record.level == some (-40)) ["wlan0".toList] rescanLog "wlan0".toList ∧
    blocksOf "wlan0".toList rescanLog = [rescanLog] ∧ isReassocBlock rescanLog = false ∧
    lastIdx? (enters .authing) rescanLog = some 8 ∧ lastSelection rescanLog = some 6 ∧
    printedLevel rescanLog 6 = some (-70) ∧
    (rescanLog[7]?.bind (exec freqRe)).map (·.group 1) = selectedBssid rescanLog 6 := by
  simp only [rescanLog, String.reduceToList]
  decide +kernel

theorem rescanLog_sme : SmeNamesLastSelected rescanLog := by
  obtain ⟨-, -, -, hauth, hlast, -, hsme⟩ := rescanLog_run
  exact smeNamesLastSelected_of_eq hauth hlast hsme

/-- The record carries the BSSID of the second selection and the level of the first. -/
theorem rescan_not_levelOfLastSelected :
    ∃ out, WPAParser.parse ["wlan0".toList] rescanLog = .ok out ∧
      SmeNamesLastSelected rescanLog ∧ isReassocBlock rescanLog = false ∧
      rescanLog ∈ blocksOf "wlan0".toList rescanLog ∧
      ∃ record ∈ out "wlan0".toList, blockRecord rescanLog = .ok (some record) ∧
        ¬ LevelOfLastSelected rescanLog record := by
  obtain ⟨hemits, hblocks, hnew, -, hlast, hprinted, -⟩ := rescanLog_run
  obtain ⟨out, hout, record, hrecord, hlevel⟩ := exists_record_of_emits hemits
  obtain ⟨blk, hblk, hread⟩ := (mem_parse hout (by simp)).mp hrecord
  obtain rfl : blk = rescanLog := List.mem_singleton.mp (hblocks ▸ hblk)
  refine ⟨out, hout, rescanLog_sme, hnew, hblk, record, hrecord, hread, ?_⟩
  rintro ⟨i, level, hi, hl, -, hrl, -⟩
  obtain rfl : 6 = i := by simpa [hlast] using hi
  obtain rfl : -70 = level := by simpa [hprinted] using hl
  simp [hrl] at hlevel

end CarFi.Analyzer

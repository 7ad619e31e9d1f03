import CarFi.Supplicant.ScanRecord
import CarFi.Supplicant.Selection

/-!
# The number of scan records

A call of `wpa_supplicant_select_bss` prints a row for every scan result, with messages of
`wpa_scan_res_match` between them, and repeats the row of the selected result before a row of
stars. `WPAScanParser` looks one row ahead to leave the repeated row out. It makes one record of
every other row with a result, unless the row does not match at all: a negative frequency is not
read, except that the SSID may hold a text that is read in its place.
-/
namespace CarFi.Supplicant

open Library Library.Regex Library.PyText Library.Printf Analyzer

/-! ## Rows that match -/

/-- After a quote, the SSID holds a text that reads as a level and a frequency. -/
def Bss.Decoy (bss : Bss) : Prop :=
  ∃ u v w x : List Char, ∃ c d : Char, levelClass c = true ∧ decimal d = true ∧
    ssidTxt bss.ssid = u ++ '\'' ::
      (v ++ ("level=".toList ++ c :: (w ++ ("freq=".toList ++ d :: x))))

/-- The row of the result can be read. -/
def Bss.Readable (bss : Bss) : Prop := 0 ≤ bss.freq ∨ bss.Decoy

theorem levelFlagsRe_eq : levelFlagsRe = ⟨none, .many dot⟩ :: (lit "level=" ++
    ⟨some 5, .one levelClass⟩ :: ⟨some 5, .many levelClass⟩ :: ⟨none, .many dot⟩ ::
      (lit "freq=" ++ ⟨some 6, .one decimal⟩ :: ⟨some 6, .many decimal⟩ :: flagsRe)) := rfl

/-- Text may be skipped before the level. -/
theorem isSome_levelFlagsRe_append {w t : List Char} (hw : ∀ c ∈ w, dot c = true)
    (ht : (exec levelFlagsRe t).isSome) : (exec levelFlagsRe (w ++ t)).isSome :=
  isSome_greedy_append hw ht

/-- The pattern may start at any quote, since all that follows is skipped up to the level. -/
theorem isSome_of_quote {s a t : List Char} (hs : s = a ++ '\'' :: t)
    (ha : ∀ c ∈ a, dot c = true) (ht : (exec levelFlagsRe t).isSome) :
    (exec (lit "'" ++ levelFlagsRe) (s.dropWhile notQuote)).isSome := by
  induction a generalizing s with
  | nil =>
    rw [hs, List.nil_append, List.dropWhile_cons_of_neg (by decide)]
    exact isSome_lit_iff.mpr ⟨t, rfl, ht⟩
  | cons c a ih =>
    obtain ⟨hc, hrest⟩ := List.forall_mem_cons.mp ha
    rw [hs, List.cons_append]
    by_cases hq : notQuote c = true
    · rw [List.dropWhile_cons_of_pos hq]
      exact ih rfl hrest
    · rw [List.dropWhile_cons_of_neg hq]
      obtain rfl : c = '\'' := by simpa [notQuote] using hq
      refine isSome_lit_iff.mpr ⟨a ++ '\'' :: t, rfl, ?_⟩
      have hgap : ∀ c ∈ a ++ ['\''], dot c = true :=
        List.forall_mem_append.mpr ⟨hrest, by simpa using hc⟩
      have h := isSome_levelFlagsRe_append hgap ht
      rwa [List.append_assoc] at h

/-- What stands between the SSID and the number of the frequency. -/
def midText (bss : Bss) : List Char :=
  ieText bss ++ ("level=".toList ++ (intText bss.level ++ " fre".toList))

theorem ssidText_eq (bss : Bss) :
    ssidText bss = ssidTxt bss.ssid ++ '\'' :: (midText bss ++ 'q' :: '=' :: freqText bss) := by
  have hfreq : "freq=".toList = "fre".toList ++ ['q', '='] := by decide
  have hblank : " fre".toList = ' ' :: "fre".toList := by decide
  simp [ssidText, midText, levelText, hfreq, hblank]

theorem dot_midText (bss : Bss) : ∀ c ∈ midText bss, dot c = true := by
  have hlevel : ∀ c ∈ intText bss.level, dot c = true := fun c hc =>
    dot_of_class (by decide) (levelClass_of_mem_intText hc)
  simp only [midText, List.forall_mem_append]
  have hlit : ∀ w : List Char, w.all dot = true → ∀ c ∈ w, dot c = true := fun _ =>
    List.all_eq_true.mp
  exact ⟨dot_ieText bss, hlit _ rfl, hlevel, hlit _ rfl⟩

theorem notMem_midText (bss : Bss) : 'q' ∉ midText bss := by
  have hdec : ∀ n, 'q' ∉ decText n := fun n h => absurd (ascii09_of_mem_decText h) (by decide)
  have hhex : 'q' ∉ hexText bss.caps := fun h => absurd (hexDigit_of_mem_hexText h) (by decide)
  have hint : 'q' ∉ intText bss.level := fun h =>
    absurd (levelClass_of_mem_intText h) (by decide)
  unfold midText ieText
  simp only [String.reduceToList, List.mem_append, not_or]
  exact ⟨⟨⟨⟨⟨⟨⟨by decide, hdec _⟩, by decide⟩, hdec _⟩, by decide⟩, hhex⟩,
    by decide⟩, by decide, hint, by decide⟩

/-- The flags can be read from any point before them. -/
theorem isSome_flagsRe {w : List Char} (hw : ∀ c ∈ w, dot c = true) (bss : Bss) :
    (exec flagsRe (w ++ freqText bss)).isSome := by
  have hflags := (flagsText_all bss.extSuppRates bss.htCap bss.vhtCap bss.wps bss.p2p bss.osen).1
  have hnum : ∀ c ∈ w ++ intText bss.freq, dot c = true :=
    List.forall_mem_append.mpr
      ⟨hw, fun c hc => dot_of_class (by decide) (levelClass_of_mem_intText hc)⟩
  rw [freqText, ← List.append_assoc]
  exact isSome_greedy_append hnum hflags

theorem isSome_of_decoy {bss : Bss} (h : bss.Decoy) :
    (exec (lit "'" ++ levelFlagsRe) ((ssidText bss).dropWhile notQuote)).isSome := by
  obtain ⟨u, v, w, x, c, d, hc, hd, hssid⟩ := h
  have hdot : ∀ e ∈ u ++ '\'' :: (v ++
      ("level=".toList ++ c :: (w ++ ("freq=".toList ++ d :: x)))), dot e = true := by
    rw [← hssid]
    exact fun _ => dot_of_mem_ssidTxt
  simp only [List.forall_mem_append, List.forall_mem_cons] at hdot
  obtain ⟨hu, -, hv, -, -, hw, -, -, hx⟩ := hdot
  -- the flags after the decoy are the printed ones
  have hflags : (exec flagsRe
      (x ++ '\'' :: (midText bss ++ 'q' :: '=' :: freqText bss))).isSome := by
    have hgap : ∀ e ∈ x ++ '\'' :: (midText bss ++ ['q', '=']), dot e = true := by
      simp only [List.forall_mem_append, List.forall_mem_cons]
      exact ⟨hx, by decide, dot_midText bss, by decide, by decide, by simp⟩
    simpa using isSome_flagsRe hgap bss
  refine isSome_of_quote (a := u) (t := v ++ ("level=".toList ++ c :: (w ++ ("freq=".toList ++
    d :: (x ++ '\'' :: (midText bss ++ 'q' :: '=' :: freqText bss)))))) ?_ hu ?_
  · rw [ssidText_eq, hssid]
    simp only [List.append_assoc, List.cons_append]
  · rw [levelFlagsRe_eq]
    refine isSome_many_iff.mpr ⟨v, _, rfl, hv, isSome_lit_iff.mpr ⟨_, rfl, ?_⟩⟩
    refine isSome_plus_iff.mpr ⟨c, [], _, rfl, by simpa using hc, ?_⟩
    refine isSome_many_iff.mpr ⟨w, _, rfl, hw, isSome_lit_iff.mpr ⟨_, rfl, ?_⟩⟩
    exact isSome_plus_iff.mpr ⟨d, [], _, rfl, by simpa using hd, hflags⟩

/-- A text of a frequency with a digit is the printed number or stands in the SSID. -/
theorem decoy_split {bss : Bss} (hneg : bss.freq < 0) {u x : List Char} {d : Char}
    (hd : decimal d = true) (h : ssidText bss = u ++ 'q' :: '=' :: d :: x) :
    ∃ y, ssidTxt bss.ssid = u ++ 'q' :: '=' :: d :: y := by
  have hquote : decimal '\'' = false := by decide
  rw [ssidText_eq, List.append_eq_append_iff] at h
  obtain ⟨z, hu, hz⟩ | ⟨z, hssid, hz⟩ := h
  · -- the printed number starts with a minus sign
    exfalso
    obtain ⟨n, hn⟩ := Int.eq_negSucc_of_lt_zero hneg
    cases z with
    | nil => simp at hz
    | cons e z =>
      obtain ⟨-, hz⟩ := List.cons.inj hz
      have hq : 'q' ∉ '=' :: freqText bss := by
        have hflags := (flagsText_all bss.extSuppRates bss.htCap bss.vhtCap bss.wps bss.p2p
          bss.osen).2.2.1
        have hnum : 'q' ∉ intText bss.freq := fun h =>
          absurd (levelClass_of_mem_intText h) (by decide)
        simp [freqText, hflags, hnum]
      obtain ⟨-, -, hz⟩ := (List.append_cons_inj_of_notMem (notMem_midText bss) hq).mp hz
      have hminus : d = '-' := by
        simp only [freqText, hn, intText, List.cons_append, List.cons.injEq, true_and] at hz
        exact hz.1.symm
      exact absurd (hminus ▸ hd) (by decide)
  · rcases z with _ | ⟨_, _ | ⟨_, _ | ⟨_, z⟩⟩⟩
    · simp at hz
    · simp at hz
    · simp only [List.cons_append, List.nil_append, List.cons.injEq] at hz
      rw [hz.2.2.1, hquote] at hd
      cases hd
    · simp only [List.cons_append, List.cons.injEq] at hz
      obtain ⟨rfl, rfl, rfl, -⟩ := hz
      exact ⟨z, hssid⟩

theorem decoy_of_isSome {bss : Bss} (hneg : bss.freq < 0)
    (h : (exec (lit "'" ++ levelFlagsRe) ((ssidText bss).dropWhile notQuote)).isSome) :
    bss.Decoy := by
  obtain ⟨s, hs, hlevel⟩ := isSome_lit_iff.mp h
  rw [levelFlagsRe_eq] at hlevel
  obtain ⟨v, s₁, rfl, -, h₁⟩ := isSome_many_iff.mp hlevel
  obtain ⟨s₂, rfl, h₂⟩ := isSome_lit_iff.mp h₁
  obtain ⟨c, w, s₃, rfl, hc, h₃⟩ := isSome_plus_iff.mp h₂
  obtain ⟨w', s₄, rfl, -, h₄⟩ := isSome_many_iff.mp h₃
  obtain ⟨s₅, rfl, h₅⟩ := isSome_lit_iff.mp h₄
  obtain ⟨d, ds, s₆, rfl, hd, -⟩ := isSome_plus_iff.mp h₅
  have hfreq : "freq=".toList = "fre".toList ++ ['q', '='] := by decide
  have hquote : "'".toList = ['\''] := by decide
  have htext : ssidText bss = (ssidText bss).takeWhile notQuote ++ '\'' :: (v ++ ("level=".toList ++
      c :: (w ++ (w' ++ "fre".toList)))) ++ 'q' :: '=' :: d :: (ds ++ s₆) := by
    conv_lhs => rw [← List.takeWhile_append_dropWhile (p := notQuote) (l := ssidText bss), hs]
    simp [hfreq, hquote]
  obtain ⟨y, hy⟩ := decoy_split hneg (hd d (by simp)) htext
  refine ⟨(ssidText bss).takeWhile notQuote, v, w ++ w', y, c, d, hc c (by simp),
    hd d (by simp), ?_⟩
  rw [hy]
  simp [hfreq]

/-- Which rows give a match. -/
theorem isSome_scanRow_iff {ifname : IfName} {t : OsTime} {index : Nat} {bss : Bss} :
    (exec scanApRe (scanRow ifname t index bss)).isSome ↔ bss.Readable := by
  rw [exec_scanApRe, Option.isSome_map]
  constructor
  · intro h
    rcases Int.lt_or_le bss.freq 0 with hneg | hfreq
    · exact .inr (decoy_of_isSome hneg h)
    · exact .inl hfreq
  · rintro (hfreq | hdecoy)
    · obtain ⟨m, hm, -⟩ := exec_levelFlagsRe hfreq
      exact isSome_of_quote rfl (fun _ => dot_of_mem_ssidTxt) (Option.isSome_of_mem hm)
    · exact isSome_of_decoy hdecoy

/-! ## The rows of a call -/

/-- A message of `wpa_scan_res_match` or of a function it calls: three blanks and a text that
starts with a letter, such as `   skip - SSID mismatch`. -/
structure Aside where
  first : Char
  rest : List Char
  letter : asciiLetter first = true

def Aside.text (a : Aside) : List Char := "   ".toList ++ a.first :: a.rest

/-- A scan result as `wpa_scan_res_match` goes through it. -/
structure Considered where
  time : OsTime
  bss : Bss
  asides : List (OsTime × Aside)

/-- A call of `wpa_supplicant_select_bss`. -/
structure SelectCall where
  ifname : IfName
  group : Network
  onlyFirstSsid : Bool
  headerTime : OsTime
  results : List Considered
  /-- `wpa_scan_res_match`, as far as it is returned. -/
  test : Bss → Option Network
  /-- The out-parameter at the start. -/
  selectedSsid : Option Network
  copyTime : OsTime
  starsTime : OsTime
  selectedTime : OsTime

def headerMsg (group : Network) (onlyFirstSsid : Bool) : List Char :=
  if onlyFirstSsid then
    "Try to find BSS matching pre-selected network id=".toList ++ decText group.id
  else "Selecting BSS from priority group ".toList ++ intText group.priority

/-- The rows of the loop over the results, from the result number `index` on. -/
def resultRows (ifname : IfName) : Nat → List Considered → List Row
  | _, [] => []
  | index, r :: results =>
    scanRow ifname r.time index r.bss ::
      (r.asides.map (fun a => (msgHead ifname a.1).line a.2.text) ++
        resultRows ifname (index + 1) results)

namespace SelectCall

variable (call : SelectCall)

/-- What is printed after the loop, if a result was selected. -/
def endRows : List Row :=
  match selectBss call.test (call.results.map (·.bss)) call.selectedSsid with
  | .ok (some bss, _) =>
    [scanRow call.ifname call.copyTime call.results.length bss,
     (msgHead call.ifname call.starsTime).line separatorMsg,
     (msgHead call.ifname call.selectedTime).line (selectedMsg bss)]
  | _ => []

def rows : List Row :=
  (msgHead call.ifname call.headerTime).line (headerMsg call.group call.onlyFirstSsid) ::
    (resultRows call.ifname 0 call.results ++ call.endRows)

end SelectCall

/-- The log of a sequence of calls. -/
def selectLog (calls : List SelectCall) : List Row := calls.flatMap SelectCall.rows

/-! ## The look ahead -/

/-- A message with another start is neither a result nor the row of stars. -/
theorem scanRow_or_stars {head : LogHead} (blanks : List Char) {c : Char} {text : List Char}
    (hblanks : ∀ d ∈ blanks, space d = true) (hc : space c = false) :
    (decimal c = false → exec scanApRe (head.line (blanks ++ c :: text)) = none) ∧
      (c ≠ '*' → isEndTag (head.line (blanks ++ c :: text)) = false) := by
  have hspace : ∀ c, space c = true → decimal c = false := by
    intro c hc
    rw [Bool.eq_false_iff]
    intro hd
    simp [space_eq_false_of_decimal hd] at hc
  constructor
  · intro hd
    rw [scanApRe_eq, exec_message _ _ (rejects_one hspace) _ _ _ hblanks (by simpa using hc)]
    simp [hd]
  · intro hne
    have hnone : exec endTag (head.line (blanks ++ c :: text)) = none :=
      exec_message_eq_none (by decide) hc hne head blanks text hblanks
    rw [isEndTag, hnone]
    rfl

theorem isEndTag_scanRow (ifname : IfName) (t : OsTime) (index : Nat) (bss : Bss) :
    isEndTag (scanRow ifname t index bss) = false := by
  obtain ⟨c, ds, hds⟩ := List.exists_cons_of_ne_nil (decText_ne_nil index)
  have hdigit : ascii09 c = true := ascii09_of_mem_decText (n := index) (by simp [hds])
  have hne : c ≠ '*' := by
    rintro rfl
    exact absurd hdigit (by decide)
  have hmsg : levelMsg index bss =
      [] ++ c :: (ds ++ (levelMsg index bss).drop (decText index).length) := by
    simp [levelMsg, levelMsgStart, hds]
  rw [scanRow, hmsg]
  exact (scanRow_or_stars [] (by simp) (space_eq_false_of_decimal (decimal_of_ascii09 hdigit))).2
    hne

/-- A row that is neither a result nor a row of stars. -/
def PlainRow (row : Row) : Prop := exec scanApRe row = none ∧ isEndTag row = false

theorem decimal_eq_false_of_asciiLetter {c : Char} (h : asciiLetter c = true) :
    decimal c = false := by
  have hzero : ∀ z ∈ zeroDigits, z = 48 ∨ 123 ≤ z := by decide
  simp only [asciiLetter, Bool.or_eq_true, Bool.and_eq_true, decide_eq_true_eq,
    Char.reduceToNat] at h
  rw [decimal, List.any_eq_false]
  intro z hz
  have := hzero z hz
  simp only [Bool.and_eq_true, decide_eq_true_eq]
  omega

theorem plainRow_line {head : LogHead} {msg : List Char} (blanks : List Char) {c : Char}
    {text : List Char} (hmsg : msg = blanks ++ c :: text)
    (hblanks : ∀ d ∈ blanks, space d = true) (hc : asciiLetter c = true) :
    PlainRow (head.line msg) := by
  have hspace : space c = false := space_eq_false_of_nicClass (by simp [nicClass, hc])
  have hne : c ≠ '*' := by
    rintro rfl
    exact absurd hc (by decide)
  obtain ⟨hscan, hstars⟩ := @scanRow_or_stars head blanks c text hblanks hspace
  rw [hmsg]
  exact ⟨hscan (decimal_eq_false_of_asciiLetter hc), hstars hne⟩

theorem plainRow_headerMsg (head : LogHead) (group : Network) (onlyFirstSsid : Bool) :
    PlainRow (head.line (headerMsg group onlyFirstSsid)) := by
  unfold headerMsg
  split
  · exact plainRow_line [] (c := 'T') (by simp only [String.reduceToList]; rfl)
      (by simp) (by decide)
  · exact plainRow_line [] (c := 'S') (by simp only [String.reduceToList]; rfl)
      (by simp) (by decide)

theorem plainRow_aside (head : LogHead) (a : Aside) : PlainRow (head.line a.text) :=
  plainRow_line _ rfl (List.all_eq_true.mp (by decide)) a.letter

theorem plainRow_selectedMsg (head : LogHead) (bss : Bss) :
    PlainRow (head.line (selectedMsg bss)) := by
  have hmsg : selectedMsg bss = "   ".toList ++ 's' :: ("elected BSS ".toList ++
      (macText bss.bssid ++ (" ssid='".toList ++ (ssidTxt bss.ssid ++ ['\''])))) := by
    unfold selectedMsg
    simp only [String.reduceToList, List.append_assoc, List.cons_append, List.nil_append]
  exact plainRow_line _ hmsg (List.all_eq_true.mp (by decide)) (by decide)

theorem isEndTag_separatorMsg (head : LogHead) : isEndTag (head.line separatorMsg) = true := by
  have hmsg : separatorMsg = "   ".toList ++ "*************".toList := by decide
  have hrest : (exec (lit "*************" ++ (Regex.star space ++ eol))
      ("*************".toList ++ ['\n'])).isSome = true := by decide
  have htag : endTag = headRe (some 1) (some 2) ++
      ⟨none, .many space⟩ :: (lit "*************" ++ (Regex.star space ++ eol)) := rfl
  rw [isEndTag, htag, hmsg, exec_message _ _ (rejects_lit _ _ (by decide)) _ _ _
    (List.all_eq_true.mp (by decide)) (by simp; decide), Option.isSome_map]
  exact hrest

/-! ## The records of a log of calls -/

/-- No row of stars comes next. -/
def Quiet (rows : List Row) : Prop := rows.head?.any isEndTag = false

theorem scanRecords_of_plain {rows rest : List Row} (hplain : ∀ row ∈ rows, PlainRow row)
    (hrest : Quiet rest) :
    Quiet (rows ++ rest) ∧ scanRecords (rows ++ rest) = scanRecords rest := by
  induction rows with
  | nil => exact ⟨hrest, rfl⟩
  | cons row rows ih =>
    obtain ⟨⟨hscan, hstars⟩, hrows⟩ := List.forall_mem_cons.mp hplain
    refine ⟨by simpa [Quiet] using hstars, ?_⟩
    rw [List.cons_append, scanRecords, scanRecord, hscan, (ih hrows).2]
    rfl

/-- The record of a result. -/
def recordOf (ifname : IfName) (index : Nat) (r : Considered) : Option WPAScanObj :=
  (exec scanApRe (scanRow ifname r.time index r.bss)).map .ofMatch

/-- The records of the results from the number `index` on. -/
def resultRecords (ifname : IfName) : Nat → List Considered → List WPAScanObj
  | _, [] => []
  | index, r :: results =>
    (recordOf ifname index r).toList ++ resultRecords ifname (index + 1) results

theorem scanRecord_scanRow {ifname : IfName} {index : Nat} {r : Considered} {rows : List Row}
    (hrows : Quiet rows) :
    scanRecord (scanRow ifname r.time index r.bss) rows.head? = recordOf ifname index r := by
  rw [Quiet] at hrows
  rw [scanRecord, recordOf, hrows]
  cases exec scanApRe (scanRow ifname r.time index r.bss) <;> rfl

theorem scanRecords_resultRows (ifname : IfName) {rest : List Row} (hrest : Quiet rest)
    (index : Nat) (results : List Considered) :
    Quiet (resultRows ifname index results ++ rest) ∧
      scanRecords (resultRows ifname index results ++ rest) =
        resultRecords ifname index results ++ scanRecords rest := by
  induction results generalizing index with
  | nil => exact ⟨hrest, rfl⟩
  | cons r results ih =>
    obtain ⟨hquiet, hrecords⟩ := ih (index + 1)
    have hplain : ∀ row ∈ r.asides.map fun a => (msgHead ifname a.1).line a.2.text,
        PlainRow row := by
      intro row hrow
      obtain ⟨a, -, rfl⟩ := List.mem_map.mp hrow
      exact plainRow_aside _ _
    obtain ⟨hasides, hskip⟩ := scanRecords_of_plain hplain hquiet
    refine ⟨by simpa [Quiet, resultRows] using isEndTag_scanRow .., ?_⟩
    rw [resultRows, List.cons_append, List.append_assoc, scanRecords, scanRecord_scanRow hasides,
      hskip, hrecords, resultRecords, List.append_assoc]

theorem scanRecord_before_stars {row stars : Row} {rows : List Row} (h : isEndTag stars = true) :
    scanRecord row (stars :: rows).head? = none := by
  rw [scanRecord]
  split
  · rfl
  · exact if_pos h

/-- The copy of the selected result is not counted. -/
theorem scanRecords_endRows (call : SelectCall) {rest : List Row} (hrest : Quiet rest) :
    Quiet (call.endRows ++ rest) ∧ scanRecords (call.endRows ++ rest) = scanRecords rest := by
  unfold SelectCall.endRows
  split
  · rename_i bss _ _
    refine ⟨by simpa [Quiet] using isEndTag_scanRow .., ?_⟩
    have hplain : ∀ row ∈ [(msgHead call.ifname call.selectedTime).line (selectedMsg bss)],
        PlainRow row := by
      simpa using plainRow_selectedMsg ..
    have hselected := (scanRecords_of_plain hplain hrest).2
    have hstars : exec scanApRe ((msgHead call.ifname call.starsTime).line separatorMsg) = none :=
      (scanRow_or_stars "   ".toList (List.all_eq_true.mp (by decide)) (by decide)).1 (by decide)
    simp only [List.cons_append, List.nil_append] at hselected ⊢
    rw [scanRecords, scanRecords, hselected, scanRecord_before_stars (isEndTag_separatorMsg _),
      scanRecord, hstars]
    rfl
  · exact ⟨hrest, rfl⟩

def SelectCall.records (call : SelectCall) : List WPAScanObj :=
  resultRecords call.ifname 0 call.results

theorem scanRecords_selectLog (calls : List SelectCall) :
    Quiet (selectLog calls) ∧
      scanRecords (selectLog calls) = calls.flatMap SelectCall.records := by
  induction calls with
  | nil => exact ⟨rfl, rfl⟩
  | cons call calls ih =>
    obtain ⟨hend, hends⟩ := scanRecords_endRows call ih.1
    obtain ⟨hresults, hrecords⟩ := scanRecords_resultRows call.ifname hend 0 call.results
    have hplain : ∀ row ∈ [(msgHead call.ifname call.headerTime).line
        (headerMsg call.group call.onlyFirstSsid)], PlainRow row := by
      simpa using plainRow_headerMsg ..
    have hheader := scanRecords_of_plain hplain hresults
    have hlog : selectLog (call :: calls) =
        [(msgHead call.ifname call.headerTime).line (headerMsg call.group call.onlyFirstSsid)] ++
          (resultRows call.ifname 0 call.results ++ (call.endRows ++ selectLog calls)) := by
      simp [selectLog, SelectCall.rows]
    rw [hlog, hheader.2, hrecords, hends, ih.2]
    exact ⟨hheader.1, rfl⟩

/-! ## Results and records -/

/-- The record has the time, the interface and the address of the result. -/
structure RecordFor (ifname : IfName) (r : Considered) (obj : WPAScanObj) : Prop where
  time : obj.time = r.time.text
  intf : obj.intf = ifname.text
  mac : obj.mac = macText r.bss.bssid

theorem recordFor_of_recordOf {ifname : IfName} {index : Nat} {r : Considered} {obj : WPAScanObj}
    (h : recordOf ifname index r = some obj) : RecordFor ifname r obj := by
  obtain ⟨m, hm, rfl⟩ := Option.map_eq_some_iff.mp h
  obtain ⟨hnic, hmac, -⟩ := groups_of_exec hm
  refine ⟨?_, hnic, hmac⟩
  rw [exec_scanApRe, Option.map_eq_some_iff] at hm
  obtain ⟨m', hm', rfl⟩ := hm
  have hnil : m'.group 1 = [] := group_eq_nil (by decide) hm'
  simp [WPAScanObj.ofMatch, scanCapture, group_append, group_tag, hnil, msgHead]

theorem recordFor_of_mem {ifname : IfName} {index : Nat} {results : List Considered}
    {obj : WPAScanObj} (h : obj ∈ resultRecords ifname index results) :
    ∃ r ∈ results, RecordFor ifname r obj := by
  induction results generalizing index with
  | nil => cases h
  | cons r results ih =>
    rcases List.mem_append.mp h with h | h
    · exact ⟨r, by simp, recordFor_of_recordOf (Option.mem_toList.mp h)⟩
    · obtain ⟨r', hr', hobj⟩ := ih h
      exact ⟨r', by simp [hr'], hobj⟩

/-- If all rows can be read, there is a record for every result, in order. -/
theorem forall₂_resultRecords (ifname : IfName) (index : Nat) {results : List Considered}
    (h : ∀ r ∈ results, r.bss.Readable) :
    List.Forall₂ (RecordFor ifname) results (resultRecords ifname index results) := by
  induction results generalizing index with
  | nil => exact .nil
  | cons r results ih =>
    obtain ⟨hr, hrest⟩ := List.forall_mem_cons.mp h
    have hsome : (recordOf ifname index r).isSome := by
      rw [recordOf, Option.isSome_map]
      exact isSome_scanRow_iff.mpr hr
    obtain ⟨obj, hobj⟩ := Option.isSome_iff_exists.mp hsome
    rw [resultRecords, hobj]
    exact .cons (recordFor_of_recordOf hobj) (ih (index + 1) hrest)

/-- There are at most as many records as results, and fewer if a row cannot be read. -/
theorem length_resultRecords (ifname : IfName) (index : Nat) (results : List Considered) :
    (resultRecords ifname index results).length ≤ results.length ∧
      ((resultRecords ifname index results).length = results.length →
        ∀ r ∈ results, r.bss.Readable) := by
  induction results generalizing index with
  | nil => simp [resultRecords]
  | cons r results ih =>
    obtain ⟨hle, hall⟩ := ih (index + 1)
    cases hrec : recordOf ifname index r with
    | none =>
      simp only [resultRecords, hrec, Option.toList_none, List.nil_append, List.length_cons]
      omega
    | some obj =>
      have hr : r.bss.Readable := by
        rw [← @isSome_scanRow_iff ifname r.time index r.bss,
          ← Option.isSome_map (f := WPAScanObj.ofMatch)]
        exact Option.isSome_of_mem hrec
      simp only [resultRecords, hrec, Option.toList_some, List.singleton_append, List.length_cons,
        List.forall_mem_cons]
      exact ⟨by omega, fun h => ⟨hr, hall (by omega)⟩⟩

theorem readable_of_length {calls : List SelectCall}
    (h : (calls.flatMap SelectCall.records).length = (calls.map (·.results.length)).sum) :
    ∀ call ∈ calls, ∀ r ∈ call.results, r.bss.Readable := by
  have hle (calls : List SelectCall) :
      (calls.flatMap SelectCall.records).length ≤ (calls.map (·.results.length)).sum := by
    induction calls with
    | nil => simp
    | cons call calls ih =>
      have := (length_resultRecords call.ifname 0 call.results).1
      simp only [List.flatMap_cons, List.length_append, List.map_cons, List.sum_cons,
        SelectCall.records] at ih ⊢
      omega
  induction calls with
  | nil => simp
  | cons call calls ih =>
    obtain ⟨hcall, hall⟩ := length_resultRecords call.ifname 0 call.results
    have hcalls := hle calls
    simp only [List.flatMap_cons, List.length_append, List.map_cons, List.sum_cons] at h
    simp only [SelectCall.records] at h hcalls ih
    exact List.forall_mem_cons.mpr ⟨hall (by omega), ih (by omega)⟩

theorem length_flatten {calls : List SelectCall} {recss : List (List WPAScanObj)}
    (h : List.Forall₂ (fun call recs => List.Forall₂ (RecordFor call.ifname) call.results recs)
      calls recss) : recss.flatten.length = (calls.map (·.results.length)).sum := by
  induction h with
  | nil => rfl
  | cons hcall _ ih =>
    rw [List.flatten_cons, List.length_append, ih, List.map_cons, List.sum_cons, hcall.length_eq]

/-- Lists that agree at every interface have the same length. -/
theorem length_eq_of_filter {l l' : List WPAScanObj}
    (h : ∀ nic, l.filter (·.intf = nic) = l'.filter (·.intf = nic)) : l.length = l'.length := by
  refine List.Perm.length_eq (List.perm_iff_count.mpr fun obj => ?_)
  have hcount (l : List WPAScanObj) : (l.filter (·.intf = obj.intf)).count obj = l.count obj :=
    List.count_filter (by simp)
  rw [← hcount l, ← hcount l', h]

/-- The result of the parser has, call by call, one record for every scan result. -/
def CountsResults (intfList : List Intf) (calls : List SelectCall) : Prop :=
  ∃ recss : List (List WPAScanObj),
    List.Forall₂ (fun call recs => List.Forall₂ (RecordFor call.ifname) call.results recs)
      calls recss ∧
    WPAScanParser.parse intfList (selectLog calls) =
      .ok fun nic => recss.flatten.filter (·.intf = nic)

theorem counts_results_iff (intfList : List Intf) (calls : List SelectCall) :
    CountsResults intfList calls ↔
      ∀ call ∈ calls, ∀ r ∈ call.results,
        call.ifname.text ∈ intfList ∧ r.bss.Readable := by
  rw [CountsResults, WPAScanParser.parse_eq, (scanRecords_selectLog calls).2]
  constructor
  · rintro ⟨recss, hrecss, hparse⟩
    split_ifs at hparse with hlisted
    have hfilter := fun nic => congrFun (Except.ok.inj hparse) nic
    have hread := readable_of_length ((length_eq_of_filter hfilter).trans (length_flatten hrecss))
    intro call hcall r hr
    refine ⟨?_, hread call hcall r hr⟩
    -- the result has a record, and the interface of every record is listed
    obtain ⟨obj, hobj, hrec⟩ : ∃ obj ∈ call.records, RecordFor call.ifname r obj := by
      have hall := forall₂_resultRecords call.ifname 0 (hread call hcall)
      obtain ⟨i, hi, rfl⟩ := List.getElem_of_mem hr
      have hi' : i < call.records.length := hall.length_eq ▸ hi
      exact ⟨call.records[i], List.getElem_mem hi', hall.get hi hi'⟩
    rw [← hrec.intf]
    exact hlisted obj (List.mem_flatMap.mpr ⟨call, hcall, hobj⟩)
  · intro h
    have hlisted : ∀ obj ∈ calls.flatMap SelectCall.records, obj.intf ∈ intfList := by
      intro obj hobj
      obtain ⟨call, hcall, hobj⟩ := List.mem_flatMap.mp hobj
      obtain ⟨r, hr, hrec⟩ := recordFor_of_mem hobj
      rw [hrec.intf]
      exact (h call hcall r hr).1
    refine ⟨calls.map SelectCall.records, ?_, ?_⟩
    · rw [List.forall₂_map_right_iff, List.forall₂_same]
      exact fun call hcall => forall₂_resultRecords _ _ fun r hr => (h call hcall r hr).2
    · rw [if_pos hlisted, List.flatMap_def]

/-- A call on one result, which is skipped. -/
def skippingCall : SelectCall where
  ifname := wlp4s0
  group := { id := 0, priority := 0 }
  onlyFirstSsid := false
  headerTime := ⟨1546300800, 100⟩
  results := [⟨⟨1546300800, 250⟩, accessPoint true [],
    [(⟨1546300800, 300⟩, ⟨'s', "kip - SSID mismatch".toList, by decide⟩)]⟩]
  test := fun _ => none
  selectedSsid := none
  copyTime := ⟨1546300800, 400⟩
  starsTime := ⟨1546300800, 400⟩
  selectedTime := ⟨1546300800, 400⟩

/-- The row of an interface that is not listed raises `KeyError`. -/
theorem unlisted_call_uncounted :
    WPAScanParser.parse ["wlan0".toList] (selectLog [skippingCall]) = .error .keyError ∧
      ¬CountsResults ["wlan0".toList] [skippingCall] := by
  have herror : WPAScanParser.parse ["wlan0".toList] (selectLog [skippingCall]) =
      .error .keyError := by
    rw [WPAScanParser.parse_eq, if_neg]
    decide +kernel
  refine ⟨herror, ?_⟩
  rintro ⟨recss, -, hparse⟩
  rw [herror] at hparse
  cases hparse

end CarFi.Supplicant

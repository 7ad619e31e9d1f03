import CarFi.Analyzer.WpaScanParser
import CarFi.Supplicant.Reading

/-!
# Scan results read back

`wpa_scan_res_match` prints a row for every scan result it considers, and `WPAScanParser` makes a
record of it. The SSID is printed between quotes that the encoding of the SSID does not escape,
and the pattern of the parser ends the SSID at the first quote. The flags are read as texts, of
which `no` is as true as `yes`. `scan_recovered_iff` says which results are read back.
-/
namespace CarFi.Supplicant

open Library Library.Regex Library.PyText Library.Printf Analyzer

/-- The row printed by `wpa_scan_res_match` for the result number `index`. -/
def scanRow (ifname : IfName) (t : OsTime) (index : Nat) (bss : Bss) : Row :=
  (msgHead ifname t).line (levelMsg index bss)

/-- The WiFi version of a scan result. -/
def Bss.wifiVersion (bss : Bss) : WiFiVersion :=
  if bss.vhtCap then .ac else if bss.htCap then .n else if bss.extSuppRates then .g else .o

/-- The record has the data of the scan result. -/
structure Recovers (obj : WPAScanObj) (bss : Bss) : Prop where
  mac : obj.mac = macText bss.bssid
  ssid : obj.ssid = ssidTxt bss.ssid
  level : obj.level = intText bss.level
  freq : obj.freq = intText bss.freq
  wifiType : obj.wifiType = bss.wifiVersion

/-! ## The pattern in pieces -/

/-- What follows the number of the result. -/
def macSsidRe : Pattern :=
  ⟨none, .many space⟩ :: ⟨some 3, .one macClass⟩ :: ⟨some 3, .many macClass⟩ ::
    ⟨none, .many space⟩ ::
      (lit "ssid='" ++ ⟨some 4, .many notQuote⟩ :: (lit "'" ++ levelFlagsRe))

theorem scanApRe_eq : scanApRe = headRe (some 1) (some 2) ++ ⟨none, .many space⟩ ::
    ⟨none, .one decimal⟩ :: ⟨none, .many decimal⟩ :: ⟨none, .one (· == ':')⟩ ::
      macSsidRe := rfl

/-- What stands after the closing quote, up to the level. -/
def ieText (bss : Bss) : List Char :=
  " wpa_ie_len=".toList ++ decText bss.wpaIeLen ++ " rsn_ie_len=".toList ++
  decText bss.rsnIeLen ++ " caps=0x".toList ++ hexText bss.caps ++ " ".toList

/-- What is printed after the frequency. -/
def flagsText (g n ac wps p2p osen : Bool) : List Char :=
  " 11g=".toList ++ yesNo g ++ " 11n=".toList ++ yesNo n ++ " 11ac=".toList ++ yesNo ac ++
  " ".toList ++ (if wps then " wps".toList else []) ++ (if p2p then " p2p".toList else []) ++
  (if osen then " osen=1".toList else []) ++ ['\n']

/-- The row from the frequency on. -/
def freqText (bss : Bss) : List Char :=
  intText bss.freq ++
    flagsText bss.extSuppRates bss.htCap bss.vhtCap bss.wps bss.p2p bss.osen

/-- The row from the level on. -/
def levelText (bss : Bss) : List Char :=
  intText bss.level ++ ([' '] ++ ("freq=".toList ++ freqText bss))

/-- The row from the SSID on. -/
def ssidText (bss : Bss) : List Char :=
  ssidTxt bss.ssid ++ '\'' :: (ieText bss ++ ("level=".toList ++ levelText bss))

theorem levelMsg_eq (index : Nat) (bss : Bss) :
    levelMsg index bss ++ ['\n'] =
      decText index ++ (':' :: ' ' :: (macText bss.bssid ++
        (' ' :: ("ssid='".toList ++ ssidText bss)))) := by
  -- the literals of the message that the pieces cut
  have hcolon : ": ".toList = ':' :: [' '] := by decide
  have hssid : " ssid='".toList = ' ' :: "ssid='".toList := by decide
  have hie : "' wpa_ie_len=".toList = '\'' :: " wpa_ie_len=".toList := by decide
  have hfreq : " freq=".toList = ' ' :: "freq=".toList := by decide
  unfold levelMsg levelMsgStart levelMsgEnd ssidText ieText levelText freqText flagsText
  rw [hcolon, hssid, hie, hfreq]
  simp only [List.append_assoc, List.cons_append, List.nil_append, -String.reduceToList]

/-! ## The match of a printed row -/

theorem macText_ne_nil (addr : Fin 6 → Fin 256) : macText addr ≠ [] := by simp [macText]

/-- The characters of a printed address. -/
theorem hexDigit_or_colon_of_mem_macText {addr : Fin 6 → Fin 256} {c : Char}
    (h : c ∈ macText addr) : hexDigit c = true ∨ c = ':' := by
  have hbyte : ∀ i, c ∈ zeroPad 2 (hexText (addr i).val) → hexDigit c = true := fun i hi =>
    forall_mem_zeroPad (by decide) (fun _ hc => hexDigit_of_mem_hexText hc) c hi
  simp only [macText, List.mem_append, List.mem_cons] at h
  rcases h with ((((h | rfl | h) | rfl | h) | rfl | h) | rfl | h) | rfl | h
  all_goals first | exact .inl (hbyte _ h) | exact .inr rfl

theorem hexDigit_cases {c : Char} (h : hexDigit c = true) :
    macClass c = true ∧ space c = false ∧ c ≠ 's' := by
  have hclass : nicClass c = true := by
    simp only [hexDigit, Bool.or_eq_true, Bool.and_eq_true, decide_eq_true_eq,
      Char.reduceToNat] at h
    simp only [nicClass, asciiLetter, ascii09, Bool.or_eq_true, Bool.and_eq_true,
      decide_eq_true_eq, Char.reduceToNat] at h ⊢
    omega
  refine ⟨?_, space_eq_false_of_nicClass hclass, ?_⟩
  · simp only [hexDigit, Bool.or_eq_true, Bool.and_eq_true, decide_eq_true_eq,
      Char.reduceToNat] at h
    simp only [macClass, asciiLetter, ascii09, Bool.or_eq_true, Bool.and_eq_true,
      decide_eq_true_eq, Char.reduceToNat] at h ⊢
    omega
  · rintro rfl
    exact absurd h (by decide)

theorem macChar_cases {addr : Fin 6 → Fin 256} {c : Char} (h : c ∈ macText addr) :
    macClass c = true ∧ space c = false ∧ c ≠ 's' := by
  rcases hexDigit_or_colon_of_mem_macText h with h | rfl
  · exact hexDigit_cases h
  · decide

/-- What the pattern consumes up to the SSID. -/
def scanCapture (ifname : IfName) (t : OsTime) (index : Nat) (bss : Bss) : Capture :=
  headCapture (some 1) (some 2) (msgHead ifname t) [' '] ++
    (tag none (decText index) ++ (tag none [':', ' '] ++ (tag (some 3) (macText bss.bssid) ++
      (tag none (' ' :: "ssid='".toList) ++ tag (some 4) ((ssidText bss).takeWhile notQuote)))))

theorem macClass_eq_false_of_space {c : Char} (h : space c = true) : macClass c = false := by
  have hnic := nicClass_eq_false_of_space h
  have hcolon : c ≠ ':' := by
    rintro rfl
    exact absurd h (by decide)
  simp only [nicClass, Bool.or_eq_false_iff] at hnic
  simp [macClass, hnic.1.1, hnic.1.2, hcolon]

/-- The SSID that the pattern reads ends at the first quote. -/
theorem exec_macSsidRe (addr : Fin 6 → Fin 256) (s : List Char) :
    exec macSsidRe (' ' :: (macText addr ++ (' ' :: ("ssid='".toList ++ s)))) =
      (exec (lit "'" ++ levelFlagsRe) (s.dropWhile notQuote)).map fun m =>
        tag none [' '] ++ (tag (some 3) (macText addr) ++ (tag none (' ' :: "ssid='".toList) ++
          (tag (some 4) (s.takeWhile notQuote) ++ m))) := by
  have hmac : Stops space (macText addr ++ ([' '] ++ ("ssid='".toList ++ s))) := by
    obtain ⟨c, cs, hcs⟩ := List.exists_cons_of_ne_nil (macText_ne_nil addr)
    rw [hcs, List.cons_append, stops_cons]
    have hc : c ∈ macText addr := by simp [hcs]
    exact (macChar_cases hc).2.1
  have hssid : Stops space ("ssid='".toList ++ s) := by
    simp only [String.reduceToList, List.cons_append, stops_cons]
    decide
  have hreject : ∀ c ∈ macText addr, ∀ s, exec (⟨none, .many space⟩ :: (lit "ssid='" ++
      ⟨some 4, .many notQuote⟩ :: (lit "'" ++ levelFlagsRe))) (c :: s) = none := by
    intro c hc s
    obtain ⟨-, hspace, hne⟩ := macChar_cases hc
    rw [exec_many, greedy_stop (by simpa using hspace)]
    refine exec_lit_eq_none _ _ fun hpre => hne ?_
    simp only [String.reduceToList, List.cons_prefix_cons] at hpre
    exact hpre.1.symm
  have hclass : ∀ c, space c = true → macClass c = false := fun _ => macClass_eq_false_of_space
  have hquote : Rejects (exec (lit "'" ++ levelFlagsRe)) notQuote := rejects_lit _ _ (by decide)
  have hspaces := List.all_eq_true.mp (show [' '].all space = true by decide)
  change exec macSsidRe ([' '] ++ (macText addr ++ ([' '] ++ ("ssid='".toList ++ s)))) = _
  rw [macSsidRe,
    exec_many_append (rejects_one hclass) hspaces hmac,
    exec_plus_of_rejected (macText_ne_nil addr) (fun c hc => (macChar_cases hc).1) hreject
      (by rw [List.singleton_append, stops_cons]; decide),
    exec_many_append (rejects_lit _ _ (by decide)) hspaces hssid, exec_lit_append,
    exec_many_eq hquote]
  simp [Option.map_map, Function.comp_def]

/-- The match of a printed row. -/
theorem exec_scanApRe (ifname : IfName) (t : OsTime) (index : Nat) (bss : Bss) :
    exec scanApRe (scanRow ifname t index bss) =
      (exec (lit "'" ++ levelFlagsRe) ((ssidText bss).dropWhile notQuote)).map
        (scanCapture ifname t index bss ++ ·) := by
  have hdecimal : decimal ':' = false := by decide
  have hdigits : ∀ c ∈ decText index, decimal c = true := fun c hc =>
    decimal_of_ascii09 (ascii09_of_mem_decText hc)
  have hblank : Stops space (levelMsg index bss ++ ['\n']) := by
    rw [levelMsg_eq]
    obtain ⟨c, ds, hds⟩ := List.exists_cons_of_ne_nil (decText_ne_nil index)
    rw [hds, List.cons_append, stops_cons]
    exact space_eq_false_of_decimal (hdigits c (by simp [hds]))
  have hspace : ∀ c, space c = true → decimal c = false := by
    intro c hc
    rw [Bool.eq_false_iff]
    intro hd
    simp [space_eq_false_of_decimal hd] at hc
  rw [scanRow, scanApRe_eq, ← List.nil_append (levelMsg index bss),
    exec_message _ _ (rejects_one hspace) _ _ _ (by simp) hblank, levelMsg_eq,
    exec_plus_append (rejects_char hdecimal) (decText_ne_nil index)
    hdigits (by simpa using hdecimal), exec_one_cons, if_pos (by decide), exec_macSsidRe]
  simp [scanCapture, Option.map_map, Function.comp_def]

/-! ## The level, the frequency and the flags -/

theorem flagsText_all (g n ac wps p2p osen : Bool) :
    (exec flagsRe (flagsText g n ac wps p2p osen)).isSome = true ∧
      'l' ∉ flagsText g n ac wps p2p osen ∧ 'q' ∉ flagsText g n ac wps p2p osen ∧
      Stops decimal (flagsText g n ac wps p2p osen) := by
  have hall : ∀ g n ac wps p2p osen : Bool,
      ((exec flagsRe (flagsText g n ac wps p2p osen)).isSome &&
        !(flagsText g n ac wps p2p osen).contains 'l' &&
        !(flagsText g n ac wps p2p osen).contains 'q' &&
        (flagsText g n ac wps p2p osen).head?.all (! decimal ·)) = true := by
    decide +kernel
  have h := hall g n ac wps p2p osen
  simp only [Bool.and_eq_true, Bool.not_eq_true', List.contains_eq_mem,
    decide_eq_false_iff_not] at h
  obtain ⟨⟨⟨hsome, hl⟩, hq⟩, hstop⟩ := h
  refine ⟨hsome, hl, hq, fun c hc => ?_⟩
  rw [Option.mem_def] at hc
  simpa [hc] using hstop

/-- The number of a frequency that is not negative is read up to the flags. -/
theorem exec_freqFlagsRe {bss : Bss} (hfreq : 0 ≤ bss.freq) :
    ∃ m, exec freqFlagsRe ([' '] ++ ("freq=".toList ++ freqText bss)) = some m ∧
      m.group 6 = intText bss.freq := by
  obtain ⟨n, hn⟩ := Int.eq_ofNat_of_zero_le hfreq
  have hnum : intText bss.freq = decText n := by rw [hn]; rfl
  have hdigits : ∀ c ∈ intText bss.freq, decimal c = true := by
    rw [hnum]
    exact fun c hc => decimal_of_ascii09 (ascii09_of_mem_decText hc)
  obtain ⟨hsome, -, hq, hstop⟩ := flagsText_all bss.extSuppRates bss.htCap bss.vhtCap bss.wps
    bss.p2p bss.osen
  obtain ⟨m, hm⟩ := Option.isSome_iff_exists.mp hsome
  have hread := exec_plus_longest (g := some 6) (intText_ne_nil bss.freq) hdigits hstop hm
  have hlast : 'q' ∉ freqText bss := by
    rw [freqText, List.mem_append, not_or]
    refine ⟨fun h => ?_, hq⟩
    exact absurd (hdigits _ h) (by decide)
  have hblank : ∀ c ∈ [' '], dot c = true := List.all_eq_true.mp (by decide)
  have hgap := exec_gap (g := none) hblank
    (last_of_notMem (show "freq=".toList = ['f', 'r', 'e'] ++ 'q' :: ['='] by decide)
      (by decide) hlast) hread
  refine ⟨_, hgap, ?_⟩
  have hnil : m.group 6 = [] := group_eq_nil (by decide) hm
  simp [group_append, group_tag, hnil]

theorem dot_ieText (bss : Bss) : ∀ c ∈ ieText bss, dot c = true := by
  have hlit : ∀ w : List Char, w.all dot = true → ∀ c ∈ w, dot c = true := fun _ =>
    List.all_eq_true.mp
  unfold ieText
  simp only [List.forall_mem_append]
  exact ⟨⟨⟨⟨⟨⟨hlit _ rfl, fun _ => dot_of_mem_decText⟩, hlit _ rfl⟩, fun _ =>
    dot_of_mem_decText⟩, hlit _ rfl⟩, fun _ => dot_of_mem_hexText⟩, hlit _ rfl⟩

theorem exec_levelFlagsRe {bss : Bss} (hfreq : 0 ≤ bss.freq) :
    ∃ m, exec levelFlagsRe (ieText bss ++ ("level=".toList ++ levelText bss)) = some m ∧
      m.group 5 = intText bss.level ∧ m.group 6 = intText bss.freq := by
  obtain ⟨m, hm, hgroup⟩ := exec_freqFlagsRe hfreq
  have hnum : ∀ c ∈ intText bss.level, levelClass c = true := fun _ => levelClass_of_mem_intText
  have hread := exec_plus_longest (g := some 5) (intText_ne_nil bss.level) hnum
    (by rw [List.singleton_append, stops_cons]; decide) hm
  have hlast : 'l' ∉ levelText bss := by
    obtain ⟨-, hl, -⟩ := flagsText_all bss.extSuppRates bss.htCap bss.vhtCap bss.wps bss.p2p
      bss.osen
    have hint : ∀ z, 'l' ∉ intText z := fun z h =>
      absurd (levelClass_of_mem_intText h) (by decide)
    simp only [levelText, freqText, List.mem_append, List.mem_singleton]
    simp [hint, hl]
  have hgap := exec_gap (g := none) (dot_ieText bss)
    (last_of_notMem (show "level=".toList = ['l', 'e', 'v', 'e'] ++ 'l' :: ['='] by decide)
      (by decide) hlast) hread
  refine ⟨_, hgap, ?_, ?_⟩
  · have hnil : m.group 5 = [] := group_eq_nil (by decide) hm
    simp [group_append, group_tag, hnil]
  · simp [group_append, group_tag, hgroup]

/-! ## The record of a printed row -/

/-- The part of the SSID that is read. -/
theorem takeWhile_ssidText (bss : Bss) :
    (ssidText bss).takeWhile notQuote = (ssidTxt bss.ssid).takeWhile notQuote := by
  rw [ssidText]
  induction ssidTxt bss.ssid with
  | nil => rfl
  | cons c cs ih => rw [List.cons_append, List.takeWhile_cons, List.takeWhile_cons, ih]

theorem groups_of_exec {ifname : IfName} {t : OsTime} {index : Nat} {bss : Bss} {m : Capture}
    (h : exec scanApRe (scanRow ifname t index bss) = some m) :
    m.group 2 = ifname.text ∧ m.group 3 = macText bss.bssid ∧
      m.group 4 = (ssidTxt bss.ssid).takeWhile notQuote := by
  rw [exec_scanApRe, Option.map_eq_some_iff] at h
  obtain ⟨m', hm', rfl⟩ := h
  have hnil : ∀ n ∈ [2, 3, 4], m'.group n = [] := by
    intro n hn
    refine group_eq_nil ?_ hm'
    revert n
    decide
  rw [← takeWhile_ssidText]
  simp [scanCapture, group_append, group_tag, hnil, msgHead]

/-- The flag of 11ac is a text that is not empty, whatever it says. -/
theorem wifiType_of_exec {s : List Char} {m : Capture} (h : exec scanApRe s = some m) :
    (WPAScanObj.ofMatch m).wifiType = .ac := by
  have hmem : (⟨some 9, .one lower⟩ : Item) ∈ scanApRe := by
    simp [scanApRe, levelFlagsRe, freqFlagsRe, flagsRe, grp, plus, one]
  exact if_pos (group_ne_nil hmem h)

theorem decimal_of_mem_freq {s : List Char} {m : Capture} (h : exec scanApRe s = some m) {c : Char}
    (hc : c ∈ m.group 6) : decimal c = true := by
  obtain ⟨i, hi, hgroup, hacc⟩ := accepts_of_mem h (mem_group.mp hc)
  have hsix : scanApRe.filter (·.group == some 6) = grp 6 (plus decimal) := rfl
  have hall : ∀ i ∈ grp 6 (plus decimal), i.piece.accepts = decimal := by
    simp [grp, plus, one, Regex.star, Piece.accepts]
  have hmem : i ∈ grp 6 (plus decimal) := by
    rw [← hsix]
    exact List.mem_filter.mpr ⟨hi, by simp [hgroup]⟩
  rwa [hall i hmem] at hacc

theorem exists_exec_of_notMem {ifname : IfName} {t : OsTime} {index : Nat} {bss : Bss}
    (hfreq : 0 ≤ bss.freq) (hquote : '\'' ∉ ssidTxt bss.ssid) :
    ∃ m, exec scanApRe (scanRow ifname t index bss) = some m ∧ m.group 5 = intText bss.level ∧
      m.group 6 = intText bss.freq := by
  have hplain : ∀ c ∈ ssidTxt bss.ssid, notQuote c = true := by
    intro c hc
    rw [notQuote, bne_iff_ne]
    rintro rfl
    exact hquote hc
  have hdrop : (ssidText bss).dropWhile notQuote =
      "'".toList ++ (ieText bss ++ ("level=".toList ++ levelText bss)) := by
    rw [ssidText, List.dropWhile_append_of_pos hplain]
    rfl
  obtain ⟨m, hm, hlevel, hf⟩ := exec_levelFlagsRe hfreq
  refine ⟨_, by rw [exec_scanApRe, hdrop, exec_lit_append, hm]; rfl, ?_, ?_⟩
  · simp [scanCapture, group_append, group_tag, hlevel]
  · simp [scanCapture, group_append, group_tag, hf]

theorem exists_recovers_iff {ifname : IfName} {t : OsTime} {index : Nat} {bss : Bss} :
    (∃ m, exec scanApRe (scanRow ifname t index bss) = some m ∧ Recovers (.ofMatch m) bss) ↔
      bss.vhtCap = true ∧ 0 ≤ bss.freq ∧ '\'' ∉ ssidTxt bss.ssid := by
  constructor
  · rintro ⟨m, hm, hrec⟩
    obtain ⟨-, -, hssid⟩ := groups_of_exec hm
    refine ⟨?_, ?_, fun hquote => ?_⟩
    · have htype := hrec.wifiType.symm.trans (wifiType_of_exec hm)
      by_contra hac
      rw [Bss.wifiVersion, if_neg hac] at htype
      split_ifs at htype
    · by_contra hneg
      obtain ⟨n, hn⟩ := Int.eq_negSucc_of_lt_zero (by omega : bss.freq < 0)
      have hminus : '-' ∈ m.group 6 := by
        rw [show m.group 6 = intText bss.freq from hrec.freq, hn]
        simp [intText]
      exact absurd (decimal_of_mem_freq hm hminus) (by decide)
    · have hall : (ssidTxt bss.ssid).takeWhile notQuote = ssidTxt bss.ssid :=
        hssid.symm.trans hrec.ssid
      exact absurd (List.takeWhile_eq_self_iff.mp hall _ hquote) (by decide)
  · rintro ⟨hac, hfreq, hquote⟩
    obtain ⟨m, hm, hlevel, hf⟩ := @exists_exec_of_notMem ifname t index bss hfreq hquote
    obtain ⟨-, hmac, hssid⟩ := groups_of_exec hm
    refine ⟨m, hm, hmac, ?_, hlevel, hf, ?_⟩
    · refine hssid.trans (List.takeWhile_eq_self_iff.mpr fun c hc => ?_)
      rw [notQuote, bne_iff_ne]
      rintro rfl
      exact hquote hc
    · rw [wifiType_of_exec hm, Bss.wifiVersion, if_pos hac]

/-- A result is read back, in every log in which its row is not the copy that `select_bss` prints
before the end tag, if 11ac is announced, the frequency is not negative and the SSID has no quote.
The parser can only fail at another row, of an interface that is not listed. -/
theorem scan_recovered_iff (ifname : IfName) (t : OsTime) (index : Nat) (bss : Bss)
    (intfList : List Intf) (hlisted : ifname.text ∈ intfList) :
    (∀ before after : List Row, (∀ r ∈ after.head?, isEndTag r = false) →
      (∃ out,
        WPAScanParser.parse intfList (before ++ scanRow ifname t index bss :: after) = .ok out ∧
        ∃ obj ∈ out ifname.text, Recovers obj bss) ∨
      (WPAScanParser.parse intfList (before ++ scanRow ifname t index bss :: after) =
          .error .keyError ∧
        ∃ r ∈ before ++ after, ∃ nic ∈ scanNic r, nic ∉ intfList)) ↔
      bss.vhtCap = true ∧ 0 ≤ bss.freq ∧ '\'' ∉ ssidTxt bss.ssid := by
  rw [← @exists_recovers_iff ifname t index bss]
  constructor
  · intro h
    obtain ⟨out, hout, obj, hobj, hrec⟩ | ⟨-, r, hr, -⟩ := h [] [] (by simp)
    · rw [WPAScanParser.parse_eq] at hout
      split_ifs at hout
      cases hout
      have hmem := List.mem_of_mem_filter hobj
      rw [List.nil_append, scanRecords, scanRecords, List.append_nil, Option.mem_toList,
        scanRecord] at hmem
      split at hmem
      · cases hmem
      · rename_i m hm
        cases hmem
        exact ⟨m, hm, hrec⟩
    · cases hr
  · rintro ⟨m, hm, hrec⟩ before after hnext
    have hnic : m.group 2 = ifname.text := (groups_of_exec hm).1
    have hrecord : scanRecord (scanRow ifname t index bss) after.head? = some (.ofMatch m) := by
      have hany : after.head?.any isEndTag = false := by
        cases hhead : after.head? with
        | none => rfl
        | some r => exact hnext r hhead
      simp [scanRecord, hm, hany]
    rw [WPAScanParser.parse_eq]
    split_ifs with hall
    · refine .inl ⟨_, rfl, .ofMatch m,
        List.mem_filter.mpr ⟨mem_scanRecords hrecord, ?_⟩, hrec⟩
      exact decide_eq_true hnic
    · right
      push Not at hall
      obtain ⟨obj, hobj, hforeign⟩ := hall
      obtain ⟨r, hr, hrnic⟩ := exists_of_mem_scanRecords hobj
      refine ⟨rfl, r, ?_, _, hrnic, hforeign⟩
      rcases List.mem_append.mp hr with hr | hr
      · simp [hr]
      · rcases List.mem_cons.mp hr with rfl | hr
        · simp only [scanNic, hm, Option.map_some, hnic, Option.some.injEq] at hrnic
          exact absurd (hrnic ▸ hlisted) hforeign
        · simp [hr]

def wlp4s0 : IfName := ⟨"wlp4s0".toList, by decide, List.all_eq_true.mp (by decide)⟩

/-- An access point at 5 GHz, with the SSID `it` and the version given. -/
def accessPoint (vhtCap : Bool) (rest : List (Fin 256)) : Bss where
  bssid := fun i => ⟨17 * i, by omega⟩
  ssid := 105 :: 116 :: rest
  wpaIeLen := 0
  rsnIeLen := 20
  caps := 1041
  level := -54
  freq := 5180
  extSuppRates := false
  htCap := true
  vhtCap := vhtCap
  wps := true
  p2p := false
  osen := false

theorem scan_recovered_accessPoint :
    ∃ out, WPAScanParser.parse [wlp4s0.text]
        [scanRow wlp4s0 ⟨1546300800, 250⟩ 3 (accessPoint true [])] = .ok out ∧
      ∃ obj ∈ out wlp4s0.text, Recovers obj (accessPoint true []) := by
  have hcond : (accessPoint true []).vhtCap = true ∧ 0 ≤ (accessPoint true []).freq ∧
      '\'' ∉ ssidTxt (accessPoint true []).ssid := ⟨rfl, by decide, by decide +kernel⟩
  have h := (scan_recovered_iff wlp4s0 ⟨1546300800, 250⟩ 3 (accessPoint true []) [wlp4s0.text]
    (by simp)).mpr hcond [] [] (by simp)
  obtain h | ⟨-, r, hr, -⟩ := h
  · exact h
  · cases hr

/-- The SSID `it's` is read as `it`, and a result with `11n=yes 11ac=no` as one of 11ac. -/
theorem quoted_ssid_cut :
    ssidTxt (accessPoint false [39, 115]).ssid = "it's".toList ∧
    (accessPoint false [39, 115]).wifiVersion = .n ∧
    (WPAScanParser.parse [wlp4s0.text]
        [scanRow wlp4s0 ⟨1546300800, 250⟩ 3 (accessPoint false [39, 115])]).toOption.map
      (fun out => (out wlp4s0.text).map fun obj => (obj.ssid, obj.wifiType)) =
        some [("it".toList, .ac)] := by
  refine ⟨by decide +kernel, rfl, ?_⟩
  decide +kernel

end CarFi.Supplicant

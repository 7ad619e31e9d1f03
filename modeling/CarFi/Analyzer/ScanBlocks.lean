import CarFi.Analyzer.ScanParser
import Mathlib.Data.List.Induction

/-!
# What is read from a scan log

A scan log is cut at its lines with a BSS. `processOne_eq_iff` says that every block but the last
gives its access point, whose fields are those of the last matching lines of the block, if all
numbers of the log can be read.
-/
namespace CarFi.Analyzer.ScanParser

open Library Library.Regex Library.PyText

variable {τ : Type}

/-! ## Blocks -/

def isBss (l : List Char) : Bool := (exec bssRe l).isSome

/-- The match of the last line that a pattern matches, as a value. -/
def lastMatch {β : Type} (re : Pattern) (f : Capture → Option β) (ls : List (List Char)) :
    Option β :=
  (ls.filterMap (exec re)).getLast?.bind f

def anyMatch (re : Pattern) (ls : List (List Char)) : Bool := ls.any fun l => (exec re l).isSome

def numberOf (m : Capture) : Option Nat := some (natOfDecimals (m.group 2))
def textOf (m : Capture) : Option (List Char) := some (m.group 2)
def signalOf (m : Capture) : Option ℚ := signedFloat (m.group 2)
def ratesListOf (m : Capture) : Option (List ℚ) := ratesOf (m.group 2)

/-- The numbers of a line can be read. -/
def readable (l : List Char) : Bool :=
  ((exec signalRe l).all fun m => (signalOf m).isSome) &&
    ((exec ratesRe l).all fun m => (ratesListOf m).isSome) &&
    ((exec eRatesRe l).all fun m => (ratesListOf m).isSome)

/-- The access point of a block, given the lines after its first. -/
def blockAp (time : τ) (bssid : List Char) (ls : List (List Char)) : AP τ where
  time := time
  bssid := bssid
  ssid := lastMatch ssidRe textOf ls
  channel := lastMatch channelRe numberOf ls
  freq := lastMatch freqRe numberOf ls
  rates := lastMatch ratesRe ratesListOf ls
  eRates := lastMatch eRatesRe ratesListOf ls
  signal := lastMatch signalRe signalOf ls
  ht := anyMatch htRe ls
  vht := anyMatch vhtRe ls

/-- An access point that is complete and has the SSID of the parser is kept. -/
def keep (ssid : List Char) (ap : AP τ) : Option (AP τ) :=
  if ap.isComplete && some ssid = ap.ssid then some ap.versioned else none

/-! ## One line -/

theorem lastMatch_append {β : Type} {re : Pattern} {f : Capture → Option β} {l : List Char}
    (h : (exec re l).all (fun m => (f m).isSome) = true) (ls : List (List Char)) :
    lastMatch re f (ls ++ [l]) = ((exec re l).bind f).or (lastMatch re f ls) := by
  unfold lastMatch
  cases hl : exec re l with
  | none => simp [hl]
  | some m =>
    obtain ⟨x, hx⟩ : ∃ x, f m = some x := Option.isSome_iff_exists.mp (by simpa [hl] using h)
    simp [hl, hx]

/-- A line changes the fields whose patterns it matches. -/
theorem line_eq (ap : AP τ) (l : List Char) :
    ap.line l = if readable l then some
      { ap with
        ssid := ((exec ssidRe l).bind textOf).or ap.ssid
        channel := ((exec channelRe l).bind numberOf).or ap.channel
        freq := ((exec freqRe l).bind numberOf).or ap.freq
        rates := ((exec ratesRe l).bind ratesListOf).or ap.rates
        eRates := ((exec eRatesRe l).bind ratesListOf).or ap.eRates
        signal := ((exec signalRe l).bind signalOf).or ap.signal
        ht := ap.ht || (exec htRe l).isSome
        vht := ap.vht || (exec vhtRe l).isSome }
      else none := by
  by_cases hall : ∀ k : Kind, exec k.re l = none
  · have hfreq : exec freqRe l = none := hall .freq
    have hssid : exec ssidRe l = none := hall .ssid
    have hchannel : exec channelRe l = none := hall .channel
    have hsignal : exec signalRe l = none := hall .signal
    have hrates : exec ratesRe l = none := hall .rates
    have heRates : exec eRatesRe l = none := hall .eRates
    have hht : exec htRe l = none := hall .ht
    have hvht : exec vhtRe l = none := hall .vht
    simp [AP.line, readable, hfreq, hssid, hchannel, hsignal, hrates, heRates, hht, hvht]
  · push Not at hall
    obtain ⟨k, hk⟩ := hall
    obtain ⟨m, hm⟩ := Option.ne_none_iff_exists'.mp hk
    have hfreq (h : k ≠ .freq) : exec freqRe l = none := Kind.exec_eq_none hm h
    have hssid (h : k ≠ .ssid) : exec ssidRe l = none := Kind.exec_eq_none hm h
    have hchannel (h : k ≠ .channel) : exec channelRe l = none := Kind.exec_eq_none hm h
    have hsignal (h : k ≠ .signal) : exec signalRe l = none := Kind.exec_eq_none hm h
    have hrates (h : k ≠ .rates) : exec ratesRe l = none := Kind.exec_eq_none hm h
    have heRates (h : k ≠ .eRates) : exec eRatesRe l = none := Kind.exec_eq_none hm h
    have hht (h : k ≠ .ht) : exec htRe l = none := Kind.exec_eq_none hm h
    have hvht (h : k ≠ .vht) : exec vhtRe l = none := Kind.exec_eq_none hm h
    cases k with
    | bss | ht | vht =>
      simp only [Kind.re] at hm
      simp [AP.line, readable, hm, hfreq, hssid, hchannel, hsignal, hrates, heRates, hht, hvht]
    | freq | ssid | channel =>
      simp only [Kind.re] at hm
      simp [AP.line, readable, numberOf, textOf, hm, hfreq, hssid, hchannel, hsignal,
        hrates, heRates, hht, hvht]
    | signal =>
      simp only [Kind.re] at hm
      cases hx : signedFloat (m.group 2) <;>
        simp [AP.line, readable, signalOf, hm, hx, hfreq, hssid, hchannel, hrates,
          heRates, hht, hvht]
    | rates | eRates =>
      simp only [Kind.re] at hm
      cases hx : ratesOf (m.group 2) <;>
        simp [AP.line, readable, ratesListOf, hm, hx, hfreq, hssid, hchannel, hsignal,
          hrates, heRates, hht, hvht]

/-- The lines of a block are read to its access point, if their numbers can be read. -/
theorem foldlM_line (time : τ) (bssid : List Char) (ls : List (List Char)) :
    ls.foldlM AP.line { time := time, bssid := bssid } =
      if ls.all readable then some (blockAp time bssid ls) else none := by
  induction ls using List.reverseRecOn with
  | nil => rfl
  | append_singleton ls l ih =>
    rw [List.foldlM_append, ih, List.all_append]
    cases hls : ls.all readable with
    | false => simp
    | true =>
      cases hl : readable l with
      | false => simp [line_eq, hl]
      | true =>
        have hread := hl
        simp only [readable, Bool.and_eq_true] at hread
        obtain ⟨⟨hsignal, hrates⟩, heRates⟩ := hread
        have hnumber (m : Option Capture) : m.all (fun m => (numberOf m).isSome) = true := by
          cases m <;> rfl
        have htext (m : Option Capture) : m.all (fun m => (textOf m).isSome) = true := by
          cases m <;> rfl
        simp [line_eq, hl, blockAp, lastMatch_append (htext _), lastMatch_append (hnumber _),
          lastMatch_append hsignal, lastMatch_append hrates, lastMatch_append heRates, anyMatch]

/-! ## A file -/

/-- `process_one` makes a record of each block. -/
def reader (timestamp : List Char → Option τ) : Reader (List Char) (AP τ) where
  start l := (exec bssRe l).bind fun m =>
    (timestamp (m.group 1)).map fun t => { time := t, bssid := m.group 2 }
  update := AP.line

theorem line_eq_step (timestamp : List Char → Option τ) (ssid : List Char)
    (s : List (AP τ) × Option (AP τ)) (l : List Char) :
    line timestamp ssid s l = (reader timestamp).step isBss (keep ssid) s l := by
  obtain ⟨apList, ap⟩ := s
  cases hl : exec bssRe l with
  | none => cases ap <;> simp [line, Reader.step, reader, isBss, hl]
  | some m =>
    cases ap with
    | none => simp [line, Reader.step, reader, isBss, hl, Function.comp_def]
    | some ap =>
      cases hcomplete : ap.isComplete with
      | false => simp [line, Reader.step, reader, isBss, hl, keep, hcomplete, Function.comp_def]
      | true =>
        by_cases hssid : some ssid = ap.ssid
        · simp [line, Reader.step, reader, isBss, hl, keep, hcomplete, ← hssid,
            Function.comp_def]
        · simp [line, Reader.step, reader, isBss, hl, keep, hcomplete, hssid, Function.comp_def]

theorem processOne_eq_read (timestamp : List Char → Option τ) (ssid : List Char)
    (lines : List (List Char)) :
    processOne timestamp ssid lines = (reader timestamp).read isBss (keep ssid) lines := by
  have hline : line timestamp ssid = (reader timestamp).step isBss (keep ssid) := by
    funext s l
    exact line_eq_step timestamp ssid s l
  rw [processOne, hline, Reader.read]

/-- The time and the BSSID of the first line of a block. -/
def stamp (timestamp : List Char → Option τ) (l : List Char) : Option (τ × List Char) := do
  let m ← exec bssRe l
  return (← timestamp (m.group 1), m.group 2)

/-- Every line with a BSS has a well-formed timestamp. -/
def Stamped (timestamp : List Char → Option τ) (lines : List (List Char)) : Prop :=
  ∀ l ∈ lines, isBss l = true → (stamp timestamp l).isSome

theorem record_eq (timestamp : List Char → Option τ) (b : List Char × List (List Char)) :
    (reader timestamp).record b = (stamp timestamp b.1).bind fun x =>
      if b.2.all readable then some (blockAp x.1 x.2 b.2) else none := by
  obtain ⟨l, ls⟩ := b
  cases hl : exec bssRe l with
  | none => simp [Reader.record, reader, stamp, hl]
  | some m =>
    cases ht : timestamp (m.group 1) with
    | none => simp [Reader.record, reader, stamp, hl, ht]
    | some t => simp [Reader.record, reader, stamp, hl, ht, foldlM_line]

/-- The access point that a block gives, if it is over. -/
def result (timestamp : List Char → Option τ) (ssid : List Char)
    (b : List Char × List (List Char)) : Option (AP τ) :=
  (stamp timestamp b.1).bind fun x => keep ssid (blockAp x.1 x.2 b.2)

theorem record_isSome_iff {timestamp : List Char → Option τ} {lines : List (List Char)}
    (htime : Stamped timestamp lines) {b : List Char × List (List Char)}
    (hb : b ∈ blocks isBss lines) :
    ((reader timestamp).record b).isSome ↔ b.2.all readable = true := by
  obtain ⟨hmem, hbss⟩ := mem_of_mem_blocks hb
  obtain ⟨x, hx⟩ := Option.isSome_iff_exists.mp (htime b.1 hmem hbss)
  rw [record_eq, hx, Option.bind_some]
  split_ifs with hread
  · simpa using hread
  · simpa using hread

/-- A log gives one access point for each block but the last whose access point is kept, iff all
numbers of its blocks can be read. -/
theorem processOne_eq_iff (timestamp : List Char → Option τ) (ssid : List Char)
    (lines : List (List Char)) (htime : Stamped timestamp lines) :
    processOne timestamp ssid lines =
        some ((blocks isBss lines).dropLast.filterMap (result timestamp ssid)) ↔
      ∀ b ∈ blocks isBss lines, b.2.all readable = true := by
  rw [processOne_eq_read]
  constructor
  · intro h b hb
    by_contra hread
    have hnone : (reader timestamp).record b = none := by
      rw [← Option.not_isSome_iff_eq_none, record_isSome_iff htime hb]
      exact hread
    rw [Reader.read_eq_none_iff.mpr ⟨b, hb, hnone⟩] at h
    cases h
  · intro hread
    rw [Reader.read_eq_some fun b hb => (record_isSome_iff htime hb).mpr (hread b hb)]
    congr 1
    refine List.filterMap_congr fun b hb => ?_
    have hb := List.mem_of_mem_dropLast hb
    rw [record_eq, result, hread b hb]
    cases stamp timestamp b.1 <;> rfl

/-- A log of two blocks; the signal of the first is given as a text. -/
def sampleLog (signal : String) : List (List Char) :=
  ["2021-01-01T00:00:00.0+0000 h: BSS 00:11:22:33:44:55\n".toList,
   "t h: freq: 2412\n".toList,
   ("t h: signal: " ++ signal ++ " dBm\n").toList,
   "t h: SSID: wifi\n".toList,
   "t h: Supported rates: 1.0* 2.0 \n".toList,
   "t h: DS Parameter set: channel 1\n".toList,
   "t h: HT capabilities:\n".toList,
   "2021-01-01T00:00:00.0+0000 h: BSS 00:11:22:33:44:66\n".toList]

/-- The timestamps of that log. -/
def newYear (ts : List Char) : Option Nat :=
  if ts = "2021-01-01T00:00:00.0+0000".toList then some 1609459200 else none

theorem processOne_sampleLog :
    processOne newYear "wifi".toList (sampleLog "-60.5") =
      some [{ time := 1609459200, bssid := "00:11:22:33:44:55".toList, ssid := some "wifi".toList,
              channel := some 1, freq := some 2412, rates := some [1, 2], signal := some (-121 / 2),
              ht := true, wifiVersion := some .n }] := by
  have hiff := processOne_eq_iff newYear "wifi".toList (sampleLog "-60.5") (by
    unfold Stamped
    decide +kernel)
  rw [hiff.mpr (by decide +kernel)]
  decide +kernel

/-- A signal that is no number makes the parser raise. -/
theorem unreadable_signal_raises :
    Stamped newYear (sampleLog "-") ∧
      processOne newYear "wifi".toList (sampleLog "-") = none := by
  refine ⟨?_, by decide +kernel⟩
  unfold Stamped
  decide +kernel

end CarFi.Analyzer.ScanParser

import CarFi.Analyzer.WpaScanParser
import CarFi.Library.Blocks
import CarFi.Library.Fields

/-!
# The parser of the scanner's logs

`ScanParser.process_one` of `analyzer/lib/scan_parser.py`. A line with a BSS starts an access point,
the lines after it fill in its fields, and the line of the next BSS decides whether it is kept. The
last access point of a file is never kept.

The lines have the newlines that end them, since `\s` matches a newline too. `none` is the
`ValueError` of a conversion.
-/
namespace CarFi.Analyzer.ScanParser

open Library Library.Regex Library.PyText

/-! ## Patterns -/

def notSpace : CharClass := fun c => !space c
def notColon : CharClass := fun c => c != ':'
def alphanumeric : CharClass := fun c => asciiLetter c || ascii09 c
def signalClass : CharClass := fun c => c == '-' || ascii09 c || c == '.'
def ratesClass : CharClass := fun c => space c || ascii09 c || c == '*' || c == '.'

/-- `^([^\s]+)\s+[^:]+:\s+`, with which all patterns begin. -/
def headRe : Pattern :=
  grp 1 (plus notSpace) ++ (plus space ++ (plus notColon ++ (lit ":" ++ plus space)))

/-- A pattern for the lines with a given tag. -/
def lineRe (tag : String) (rest : Pattern) : Pattern := headRe ++ (lit tag ++ rest)

def toEnd : Pattern := Regex.star dot ++ eol

/-- `[a-zA-Z0-9]{2}(:[a-zA-Z0-9]{2}){5}` -/
def bssidRe : Pattern :=
  let two := one alphanumeric ++ one alphanumeric
  two ++ (List.replicate 5 (lit ":" ++ two)).flatten

def bssRe : Pattern := lineRe "BSS" (plus space ++ grp 2 bssidRe ++ toEnd)
def freqRe : Pattern := lineRe "freq:" (plus space ++ grp 2 (plus decimal) ++ toEnd)
def ssidRe : Pattern := lineRe "SSID:" (one space ++ grp 2 (Regex.star dot) ++ eol)
def channelRe : Pattern :=
  lineRe "DS" (one space ++ lit "Parameter" ++ one space ++ lit "set:" ++ plus space ++
    lit "channel" ++ plus space ++ grp 2 (plus decimal) ++ toEnd)
def signalRe : Pattern := lineRe "signal:" (plus space ++ grp 2 (plus signalClass) ++ toEnd)
def ratesRe : Pattern :=
  lineRe "Supported" (one space ++ lit "rates:" ++ plus space ++ grp 2 (plus ratesClass) ++ toEnd)
def eRatesRe : Pattern :=
  lineRe "Extended" (one space ++ lit "supported" ++ one space ++ lit "rates:" ++ plus space ++
    grp 2 (plus ratesClass) ++ toEnd)
def htRe : Pattern := lineRe "HT" (one space ++ lit "capabilities:" ++ toEnd)
def vhtRe : Pattern := lineRe "VHT" (one space ++ lit "capabilities:" ++ toEnd)

/-! ## The parser -/

/-- `[float(x.rstrip("*")) for x in rates.split()]` -/
def ratesOf (rates : List Char) : Option (List ℚ) :=
  (fields space rates).mapM fun x => float (x.reverse.dropWhile (· == '*')).reverse

/-- `AP`, from the line of its BSS on. -/
structure AP (τ : Type) where
  time : τ
  bssid : List Char
  ssid : Option (List Char) := none
  channel : Option Nat := none
  freq : Option Nat := none
  rates : Option (List ℚ) := none
  eRates : Option (List ℚ) := none
  signal : Option ℚ := none
  ht : Bool := false
  vht : Bool := false
  wifiVersion : Option WiFiVersion := none
  deriving DecidableEq

variable {τ : Type}

/-- `is_complete`: a field that is `None`, empty or zero is missing. -/
def AP.isComplete (ap : AP τ) : Bool :=
  ap.ssid.any (· ≠ []) && ap.bssid ≠ [] && ap.channel.any (· ≠ 0)
    && ap.freq.any (· ≠ 0) && ap.rates.any (· ≠ []) && ap.signal.any (· ≠ 0)

/-- The version is set when the access point is complete. -/
def AP.versioned (ap : AP τ) : AP τ :=
  { ap with wifiVersion := some (if ap.vht then .ac else if ap.ht then .n else .o) }

/-- The branches for a line that is not that of a BSS, with `ap` set. -/
def AP.line (ap : AP τ) (strLine : List Char) : Option (AP τ) :=
  if let some m := exec freqRe strLine then
    some { ap with freq := some (natOfDecimals (m.group 2)) }
  else if let some m := exec ssidRe strLine then some { ap with ssid := some (m.group 2) }
  else if let some m := exec channelRe strLine then
    some { ap with channel := some (natOfDecimals (m.group 2)) }
  else if let some m := exec signalRe strLine then
    (signedFloat (m.group 2)).map fun x => { ap with signal := some x }
  else if let some m := exec ratesRe strLine then
    (ratesOf (m.group 2)).map fun xs => { ap with rates := some xs }
  else if let some m := exec eRatesRe strLine then
    (ratesOf (m.group 2)).map fun xs => { ap with eRates := some xs }
  else if (exec htRe strLine).isSome then some { ap with ht := true }
  else if (exec vhtRe strLine).isSome then some { ap with vht := true }
  else some ap

-- `datetime.strptime(ts, TIME_FMT).timestamp()`, and the SSID of the parser
variable (timestamp : List Char → Option τ) (ssid : List Char)

/-- One turn of the loop over the lines of a file. -/
def line (s : List (AP τ) × Option (AP τ)) (strLine : List Char) :
    Option (List (AP τ) × Option (AP τ)) :=
  match exec bssRe strLine with
  | some m =>
    let apList := match s.2 with
      | none => s.1
      | some ap =>
        if ap.isComplete then if some ssid = ap.ssid then s.1 ++ [ap.versioned] else s.1 else s.1
    (timestamp (m.group 1)).map fun t => (apList, some { time := t, bssid := m.group 2 })
  | none =>
    match s.2 with
    | none => some s
    | some ap => (ap.line strLine).map fun ap => (s.1, some ap)

/-- `process_one` on the lines of a file. -/
def processOne (lines : List (List Char)) : Option (List (AP τ)) :=
  (lines.foldlM (line timestamp ssid) ([], none)).map (·.1)

/-! ## A line has one tag -/

/-- What follows the colon after the first word, without blanks. -/
def afterHead (s : List Char) : List Char :=
  ((s.dropWhile notSpace).dropWhile notColon).tail.dropWhile space

theorem isPrefix_afterHead {tag : String} {rest : Pattern} {s : List Char} {m : Capture}
    (htag : ∃ c cs, tag.toList = c :: cs ∧ space c = false)
    (h : exec (lineRe tag rest) s = some m) : tag.toList <+: afterHead s := by
  obtain ⟨c₁, w₁, t₁, m₁, rfl, h₁, ht₁⟩ := exec_plus_eq_some h
  obtain ⟨c₂, w₂, t₂, m₂, rfl, h₂, ht₂⟩ := exec_plus_eq_some ht₁
  obtain ⟨c₃, w₃, t₃, m₃, rfl, h₃, ht₃⟩ := exec_plus_eq_some ht₂
  obtain ⟨t, rfl⟩ : [':'] <+: t₃ := isPrefix_of_exec_lit (w := ":") ht₃
  have ht : ∃ m₄, exec (plus space ++ (lit tag ++ rest)) t = some m₄ := by
    have happ := (exec_lit_append ":" (plus space ++ (lit tag ++ rest)) t).symm.trans ht₃
    obtain ⟨m₄, hm₄, -⟩ := Option.map_eq_some_iff.mp happ
    exact ⟨m₄, hm₄⟩
  obtain ⟨m₄, ht⟩ := ht
  obtain ⟨c₄, w₄, t₄, m₅, rfl, h₄, ht₄⟩ := exec_plus_eq_some ht
  have hword (t : List Char) :
      (c₁ :: w₁ ++ (c₂ :: w₂ ++ t)).dropWhile notSpace = c₂ :: w₂ ++ t := by
    have hc₂ : notSpace c₂ = false := by simp [notSpace, h₂ c₂ (by simp)]
    rw [List.dropWhile_append_of_pos h₁, List.cons_append,
      List.dropWhile_cons_of_neg (by simp [hc₂])]
  have hcolon (t : List Char) :
      (c₂ :: w₂ ++ (c₃ :: w₃ ++ ':' :: t)).dropWhile notColon = ':' :: t := by
    have hblank : ∀ d ∈ c₂ :: w₂, notColon d = true := by
      rintro d hd
      have hspace := h₂ d hd
      simp only [notColon, bne_iff_ne]
      rintro rfl
      revert hspace
      decide
    rw [List.dropWhile_append_of_pos hblank, List.dropWhile_append_of_pos h₃]
    exact List.dropWhile_cons_of_neg (by decide)
  have hlast : (c₄ :: w₄ ++ t₄).dropWhile space = t₄ := by
    obtain ⟨c, cs, htag, hc⟩ := htag
    obtain ⟨t', rfl⟩ := isPrefix_of_exec_lit ht₄
    rw [List.dropWhile_append_of_pos h₄, htag]
    exact List.dropWhile_cons_of_neg (by simp [hc])
  rw [afterHead, hword, List.singleton_append, hcolon, List.tail_cons, hlast]
  exact isPrefix_of_exec_lit ht₄

/-- The kinds of lines, with their patterns. -/
inductive Kind where
  | bss | freq | ssid | channel | signal | rates | eRates | ht | vht
  deriving DecidableEq

def Kind.tag : Kind → String
  | .bss => "BSS"
  | .freq => "freq:"
  | .ssid => "SSID:"
  | .channel => "DS"
  | .signal => "signal:"
  | .rates => "Supported"
  | .eRates => "Extended"
  | .ht => "HT"
  | .vht => "VHT"

def Kind.re : Kind → Pattern
  | .bss => bssRe
  | .freq => freqRe
  | .ssid => ssidRe
  | .channel => channelRe
  | .signal => signalRe
  | .rates => ratesRe
  | .eRates => eRatesRe
  | .ht => htRe
  | .vht => vhtRe

theorem Kind.isPrefix_afterHead {k : Kind} {s : List Char} {m : Capture}
    (h : exec k.re s = some m) : k.tag.toList <+: afterHead s := by
  have htag : ∃ c cs, k.tag.toList = c :: cs ∧ space c = false := by
    cases k <;> exact ⟨_, _, rfl, by decide⟩
  cases k <;> exact ScanParser.isPrefix_afterHead htag h

theorem Kind.not_isPrefix {k k' : Kind} (h : k ≠ k') : ¬k.tag.toList <+: k'.tag.toList := by
  cases k <;> cases k' <;> first | exact absurd rfl h | decide

/-- A line matches one pattern at most. -/
theorem Kind.exec_eq_none {k k' : Kind} {s : List Char} {m : Capture} (h : exec k.re s = some m)
    (hk : k ≠ k') : exec k'.re s = none := by
  by_contra hsome
  obtain ⟨m', hm'⟩ := Option.ne_none_iff_exists'.mp hsome
  rcases List.prefix_or_prefix_of_prefix (isPrefix_afterHead h)
    (isPrefix_afterHead hm') with hp | hp
  · exact not_isPrefix hk hp
  · exact not_isPrefix hk.symm hp

end CarFi.Analyzer.ScanParser

import CarFi.Library.PyText
import Mathlib.Data.List.Induction
import Mathlib.Tactic.Ring

/-!
# Printed numbers

The numbers that C programs print with `%d`, `%u`, `%x` and with a padded width, as texts, and
the characters they can hold. `int_intText` and `float_dotted` read them back.
-/
namespace CarFi.Library.Printf

open Regex PyText

/-- `%u` -/
def decText (n : Nat) : List Char := Nat.toDigits 10 n

/-- `%d` -/
def intText : Int → List Char
  | .ofNat n => decText n
  | .negSucc n => '-' :: decText (n + 1)

/-- `%x` -/
def hexText (n : Nat) : List Char := Nat.toDigits 16 n

/-- A text filled up with zeros on the left, as `%06u` and `%02x` do. -/
def zeroPad (width : Nat) (ds : List Char) : List Char :=
  List.replicate (width - ds.length) '0' ++ ds

/-! ## Characters -/

theorem ascii09_of_isDigit {c : Char} (h : c.isDigit = true) : ascii09 c = true := by
  simpa [ascii09, Char.isDigit, UInt32.le_iff_toNat_le] using h

theorem ascii09_of_mem_decText {n : Nat} {c : Char} (h : c ∈ decText n) : ascii09 c = true :=
  ascii09_of_isDigit (Nat.isDigit_of_mem_toDigits (by omega) (by omega) h)

theorem decimal_of_ascii09 {c : Char} (h : ascii09 c = true) : decimal c = true := by
  have hz : 0x30 ∈ zeroDigits := by decide
  simp only [ascii09, Bool.and_eq_true, decide_eq_true_eq, Char.reduceToNat] at h
  refine List.any_eq_true.mpr ⟨0x30, hz, ?_⟩
  simp only [Bool.and_eq_true, decide_eq_true_eq]
  omega

/-- No digit is a blank. -/
theorem space_eq_false_of_decimal {c : Char} (h : decimal c = true) : space c = false := by
  obtain ⟨z, hz, hc⟩ := List.any_eq_true.mp h
  simp only [Bool.and_eq_true, decide_eq_true_eq] at hc
  have hall : zeroDigits.all
      (fun z => z == 0x30 || (z == 0x660) || (0x661 ≤ z && z + 10 ≤ 0x1680) ||
        (0x1681 ≤ z && z + 10 ≤ 0x2000) || 0x3001 ≤ z) = true := by decide
  have hz' := List.all_eq_true.mp hall z hz
  simp only [Bool.or_eq_true, Bool.and_eq_true, decide_eq_true_eq, beq_iff_eq] at hz'
  simp only [space, Bool.or_eq_false_iff, Bool.and_eq_false_iff, decide_eq_false_iff_not,
    beq_eq_false_iff_ne]
  omega

theorem decimalValue_of_ascii09 {c : Char} (h : ascii09 c = true) :
    decimalValue c = c.toNat - 48 := by
  simp only [ascii09, Bool.and_eq_true, decide_eq_true_eq, Char.reduceToNat] at h
  -- the block of the ASCII digits is the first one
  have hfind : (zeroDigits.find? fun z => z ≤ c.toNat && c.toNat < z + 10) = some 0x30 := by
    obtain ⟨rest, hrest⟩ : ∃ rest, zeroDigits = 0x30 :: rest := ⟨_, rfl⟩
    rw [hrest, List.find?_cons_of_pos]
    simp only [Bool.and_eq_true, decide_eq_true_eq]
    omega
  rw [decimalValue, hfind]
  rfl

theorem mem_toDigits {b n : Nat} (hb : 1 < b) {c : Char} (h : c ∈ Nat.toDigits b n) :
    ∃ d < b, c = d.digitChar := by
  induction n using Nat.strongRecOn with
  | ind n ih =>
    rw [Nat.toDigits_eq_if hb] at h
    split at h
    · rename_i hn
      exact ⟨n, hn, by simpa using h⟩
    · rename_i hn
      rcases List.mem_append.mp h with h | h
      · exact ih (n / b) (Nat.div_lt_self (by omega) hb) h
      · exact ⟨n % b, Nat.mod_lt n (by omega), by simpa using h⟩

/-- The characters of a hexadecimal number. -/
def hexDigit : CharClass := fun c => ascii09 c || ('a'.toNat ≤ c.toNat && c.toNat ≤ 'f'.toNat)

theorem hexDigit_of_mem_hexText {n : Nat} {c : Char} (h : c ∈ hexText n) : hexDigit c = true := by
  obtain ⟨d, hd, rfl⟩ := mem_toDigits (by omega) h
  have : ∀ d < 16, hexDigit d.digitChar = true := by decide
  exact this d hd

theorem forall_mem_zeroPad {p : CharClass} (h0 : p '0' = true) {width : Nat} {ds : List Char}
    (hds : ∀ c ∈ ds, p c = true) : ∀ c ∈ zeroPad width ds, p c = true := by
  intro c hc
  rcases List.mem_append.mp hc with hc | hc
  · rwa [(List.mem_replicate.mp hc).2]
  · exact hds c hc

theorem decText_ne_nil (n : Nat) : decText n ≠ [] := Nat.toDigits_ne_nil

/-! ## Reading back -/

theorem digitsValue_decText (n : Nat) : digitsValue (decText n) = n := by
  have h := Nat.ofDigitChars_toDigits (b := 10) (n := n) (by omega) (by omega)
  exact h

theorem digitsValue_append (ds es : List Char) :
    digitsValue (ds ++ es) = digitsValue ds * 10 ^ es.length + digitsValue es := by
  have hfold (n : Nat) : es.foldl (fun n c => 10 * n + (c.toNat - 48)) n =
      n * 10 ^ es.length + digitsValue es := by
    induction es using List.reverseRecOn with
    | nil => simp [digitsValue]
    | append_singleton es c ih =>
      rw [List.foldl_append, ih]
      simp only [digitsValue, List.foldl_append, List.foldl_cons, List.foldl_nil,
        List.length_append, List.length_singleton, pow_succ]
      ring
  rw [digitsValue, List.foldl_append, hfold]
  rfl

theorem natOfDecimals_of_digits {ds : List Char} (h : ∀ c ∈ ds, ascii09 c = true) :
    natOfDecimals ds = digitsValue ds := by
  unfold natOfDecimals digitsValue
  refine List.foldl_ext _ _ _ fun n c hc => ?_
  rw [decimalValue_of_ascii09 (h c hc)]

theorem digitsValue_zeroPad (width : Nat) (ds : List Char) :
    digitsValue (zeroPad width ds) = digitsValue ds := by
  unfold zeroPad
  induction width - ds.length with
  | zero => rfl
  | succ k ih =>
    rw [List.replicate_succ, List.cons_append, ← ih]
    rfl

theorem length_zeroPad_decText {width n : Nat} (hw : 0 < width) (hn : n < 10 ^ width) :
    (zeroPad width (decText n)).length = width := by
  have hle : (decText n).length ≤ width := (Nat.length_toDigits_le_iff (by omega) hw).mpr hn
  simp only [zeroPad, List.length_append, List.length_replicate]
  omega

theorem int_of_digits {ds : List Char} (hne : ds ≠ []) (hds : ∀ c ∈ ds, ascii09 c = true) :
    int ds = some (digitsValue ds : Int) := by
  have hall : ds.all ascii09 = true := List.all_eq_true.mpr hds
  unfold int
  split
  · -- a digit is not the sign
    have hsign := hds '-' (by simp)
    exact absurd hsign (by decide)
  · simp [hall, hne]

theorem int_intText (z : Int) : int (intText z) = some z := by
  cases z with
  | ofNat n =>
    have h := int_of_digits (decText_ne_nil n) fun c hc => ascii09_of_mem_decText hc
    simpa [intText, digitsValue_decText] using h
  | negSucc n =>
    have hall : (decText (n + 1)).all ascii09 = true :=
      List.all_eq_true.mpr fun c hc => ascii09_of_mem_decText hc
    have hne : (decText (n + 1) != []) = true := by simp [decText_ne_nil]
    simp only [intText, int, hall, hne, digitsValue_decText, Bool.and_self, if_true]
    rfl

theorem float_dotted {whole frac : List Char} (hne : whole ≠ [])
    (hwhole : ∀ c ∈ whole, ascii09 c = true) (hfrac : ∀ c ∈ frac, ascii09 c = true) :
    float (whole ++ '.' :: frac) =
      some ((digitsValue (whole ++ frac) : ℚ) / 10 ^ frac.length) := by
  have hdot : ∀ c ∈ whole, (c != '.') = true := fun c hc => by
    have hdigit := hwhole c hc
    rcases eq_or_ne c '.' with rfl | hc
    · exact absurd hdigit (by decide)
    · simpa using hc
  have htake : (whole ++ '.' :: frac).takeWhile (· != '.') = whole := by
    rw [List.takeWhile_append_of_pos hdot]
    simp
  have hdrop : (whole ++ '.' :: frac).dropWhile (· != '.') = '.' :: frac := by
    rw [List.dropWhile_append_of_pos hdot]
    simp
  have hall : (whole ++ frac).all ascii09 = true := by
    simpa [List.all_eq_true] using ⟨hwhole, hfrac⟩
  unfold float
  simp only [htake, hdrop, hall]
  simp [hne]

end CarFi.Library.Printf

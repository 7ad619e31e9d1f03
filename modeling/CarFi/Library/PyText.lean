import CarFi.Library.Regex
import Mathlib.Data.Rat.Defs

/-!
# Texts as a Python program reads them

The character classes of Python patterns over `str`, and the two conversions `float` and
`int` on the texts such patterns let through: digits with dots, and digits with minus signs.
A conversion that raises is `none`. Times are exact decimals.
-/
namespace CarFi.Library

open Regex

/-- What a Python program can raise. -/
inductive PyError where
  | valueError | assertionError | attributeError | typeError | indexError | zeroDivisionError
  | keyError
  deriving DecidableEq, Repr

/-- One step of a program that may raise. -/
theorem bind_of_eq_some {α β : Type*} {x : Option α} {a : α} {f : α → Option β}
    {y : Option β} (h : x = some a) (hf : f a = y) : x.bind f = y := by
  rw [h]
  exact hf

namespace PyText

/-! ## Character classes -/

/-- The zero digits of Unicode; each starts a block of ten decimal digits. -/
def zeroDigits : List Nat :=
  [0x30, 0x660, 0x6F0, 0x7C0, 0x966, 0x9E6, 0xA66, 0xAE6, 0xB66, 0xBE6, 0xC66, 0xCE6, 0xD66,
   0xDE6, 0xE50, 0xED0, 0xF20, 0x1040, 0x1090, 0x17E0, 0x1810, 0x1946, 0x19D0, 0x1A80, 0x1A90,
   0x1B50, 0x1BB0, 0x1C40, 0x1C50, 0xA620, 0xA8D0, 0xA900, 0xA9D0, 0xA9F0, 0xAA50, 0xABF0,
   0xFF10, 0x104A0, 0x10D30, 0x11066, 0x110F0, 0x11136, 0x111D0, 0x112F0, 0x11450, 0x114D0,
   0x11650, 0x116C0, 0x11730, 0x118E0, 0x11C50, 0x11D50, 0x11DA0, 0x16A60, 0x16B50, 0x1D7CE,
   0x1D7D8, 0x1D7E2, 0x1D7EC, 0x1D7F6, 0x1E950]

/-- The class `\d`. -/
def decimal : CharClass := fun c => zeroDigits.any fun z => z ≤ c.toNat && c.toNat < z + 10

/-- The value of a decimal digit. -/
def decimalValue (c : Char) : Nat :=
  ((zeroDigits.find? fun z => z ≤ c.toNat && c.toNat < z + 10).map (c.toNat - ·)).getD 0

/-- The class `\s`. -/
def space : CharClass := fun c =>
  (9 ≤ c.toNat && c.toNat ≤ 13) || (28 ≤ c.toNat && c.toNat ≤ 32) || c.toNat == 0x85 ||
  c.toNat == 0xA0 || c.toNat == 0x1680 || (0x2000 ≤ c.toNat && c.toNat ≤ 0x200A) ||
  c.toNat == 0x2028 || c.toNat == 0x2029 || c.toNat == 0x202F || c.toNat == 0x205F ||
  c.toNat == 0x3000

/-- The class `.`: every character but the newline. -/
def dot : CharClass := fun c => c != '\n'

/-- The class `0-9`. -/
def ascii09 : CharClass := fun c => '0'.toNat ≤ c.toNat && c.toNat ≤ '9'.toNat

/-- The class `a-zA-Z`. -/
def asciiLetter : CharClass := fun c =>
  ('a'.toNat ≤ c.toNat && c.toNat ≤ 'z'.toNat) ||
    ('A'.toNat ≤ c.toNat && c.toNat ≤ 'Z'.toNat)

/-! ## Conversions -/

def digitsValue (ds : List Char) : Nat := ds.foldl (fun n c => 10 * n + (c.toNat - 48)) 0

/-- `float(s)` on a text of digits and dots: at most one dot and at least one digit. -/
def float (s : List Char) : Option ℚ :=
  let whole := s.takeWhile (· != '.')
  match s.dropWhile (· != '.') with
  | [] => if whole.all ascii09 && whole != [] then some (digitsValue whole) else none
  | _ :: frac =>
    if (whole ++ frac).all ascii09 && whole ++ frac != [] then
      some ((digitsValue (whole ++ frac) : ℚ) / 10 ^ frac.length)
    else none

/-- `float(s)` on a text of digits, dots and minus signs. -/
def signedFloat : List Char → Option ℚ
  | '-' :: s => (float s).map (-·)
  | s => float s

/-- `int(s)` on a text of digits and minus signs: one leading sign and at least one digit. -/
def int : List Char → Option Int
  | '-' :: ds => if ds.all ascii09 && ds != [] then some (-(digitsValue ds : Int)) else none
  | ds => if ds.all ascii09 && ds != [] then some (digitsValue ds : Int) else none

/-- `int(s)` on a text that the class `\d` let through. -/
def natOfDecimals (ds : List Char) : Nat := ds.foldl (fun n c => 10 * n + decimalValue c) 0

/-- `s.split(c)[0]` -/
def splitHead (c : Char) (s : List Char) : List Char := s.takeWhile (· != c)

/-- `xs[i]` with the negative indices counted from the end. -/
def item? {α : Type*} (xs : List α) (i : Int) : Option α :=
  if 0 ≤ i then xs[i.toNat]? else if -i ≤ xs.length then xs[(xs.length - (-i).toNat)]? else none

end PyText

end CarFi.Library

import CarFi.Library.PyText
import Mathlib.Data.List.Basic

/-!
# Texts of lines

A file that a program writes line by line, as the next program reads it: `readline`, `strip` and
`split` on one character. `splitOn_textOf` and `strip_eq_self` are the round trips.
-/
namespace CarFi.Library.PyText

open Regex

/-- Every line is ended by a newline. -/
def textOf (lines : List (List Char)) : List Char := (lines.map (· ++ ['\n'])).flatten

/-- `f.readline()` for the line number `i`, without its newline; after the last line it is empty. -/
def readline (text : List Char) (i : Nat) : List Char := (text.splitOn '\n').getD i []

/-- `s.strip()` -/
def strip (s : List Char) : List Char := ((s.dropWhile space).reverse.dropWhile space).reverse

theorem dropWhile_of_stops {p : CharClass} {s : List Char} (h : Stops p s) : s.dropWhile p = s := by
  cases s with
  | nil => rfl
  | cons c s => exact List.dropWhile_cons_of_neg (by simp [h c rfl])

/-- A text without blanks at its ends is not changed. -/
theorem strip_eq_self {s : List Char} (hhead : Stops space s) (hlast : Stops space s.reverse) :
    strip s = s := by
  rw [strip, dropWhile_of_stops hhead, dropWhile_of_stops hlast, List.reverse_reverse]

theorem strip_of_forall {s : List Char} (h : ∀ c ∈ s, space c = false) : strip s = s := by
  refine strip_eq_self (fun c hc => h c (List.mem_of_mem_head? hc)) fun c hc => ?_
  exact h c (List.mem_reverse.mp (List.mem_of_mem_head? hc))

theorem textOf_eq_intercalate (lines : List (List Char)) :
    textOf lines = ['\n'].intercalate (lines ++ [[]]) := by
  induction lines with
  | nil => rfl
  | cons line lines ih =>
    have hrest : textOf (line :: lines) = line ++ '\n' :: textOf lines := by simp [textOf]
    rw [hrest, ih]
    cases lines with
    | nil => simp [List.intercalate]
    | cons line' lines => simp [List.intercalate]

theorem splitOn_textOf {lines : List (List Char)} (h : ∀ l ∈ lines, '\n' ∉ l) :
    (textOf lines).splitOn '\n' = lines ++ [[]] := by
  rw [textOf_eq_intercalate]
  have hlines : ∀ l ∈ lines ++ [[]], '\n' ∉ l := by
    intro l hl
    rcases List.mem_append.mp hl with hl | hl
    · exact h l hl
    · simp [List.mem_singleton.mp hl]
  exact List.splitOn_intercalate '\n' hlines (by simp)

/-- The lines that were written are read. -/
theorem readline_textOf {lines : List (List Char)} (h : ∀ l ∈ lines, '\n' ∉ l) {i : Nat}
    {line : List Char} (hi : lines[i]? = some line) : readline (textOf lines) i = line := by
  rw [readline, splitOn_textOf h, List.getD_eq_getElem?_getD,
    List.getElem?_append_left (List.getElem?_eq_some_iff.mp hi).1, hi, Option.getD_some]

end CarFi.Library.PyText

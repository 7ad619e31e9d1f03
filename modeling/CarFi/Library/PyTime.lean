import CarFi.Library.Printf

/-!
# Dates and times as a Python program writes and reads them

A `datetime` with an offset from UTC, its `timestamp`, the text that the format
`%Y_%m_%d_%Hh%Mm%Ss%z` gives a time of UTC, and what `strptime` reads from a text with the same
format. `strptime_utcText` is the round trip: it loses the microseconds only.
-/
namespace CarFi.Library.PyTime

open Regex PyText Printf

/-! ## Dates -/

def isLeap (year : Nat) : Bool := year % 4 == 0 && (year % 100 != 0 || year % 400 == 0)

def daysInMonth (year month : Nat) : Nat :=
  if month == 2 then (if isLeap year then 29 else 28)
  else if month == 4 || month == 6 || month == 9 || month == 11 then 30 else 31

/-- The fields of a date and of a time of day. -/
structure Civil where
  year : Nat
  month : Nat
  day : Nat
  hour : Nat
  minute : Nat
  second : Nat
  deriving DecidableEq, Repr

/-- The values the constructor `datetime(...)` takes. -/
structure Civil.Valid (c : Civil) : Prop where
  year : 1 ≤ c.year ∧ c.year ≤ 9999
  month : 1 ≤ c.month ∧ c.month ≤ 12
  day : 1 ≤ c.day ∧ c.day ≤ daysInMonth c.year c.month
  hour : c.hour < 24
  minute : c.minute < 60
  second : c.second < 60

instance (c : Civil) : Decidable c.Valid :=
  decidable_of_iff
    ((1 ≤ c.year ∧ c.year ≤ 9999) ∧ (1 ≤ c.month ∧ c.month ≤ 12) ∧
      (1 ≤ c.day ∧ c.day ≤ daysInMonth c.year c.month) ∧
      c.hour < 24 ∧ c.minute < 60 ∧ c.second < 60)
    ⟨fun ⟨y, m, d, h, mi, s⟩ => ⟨y, m, d, h, mi, s⟩,
      fun ⟨y, m, d, h, mi, s⟩ => ⟨y, m, d, h, mi, s⟩⟩

theorem daysInMonth_le (year month : Nat) : daysInMonth year month ≤ 31 := by
  unfold daysInMonth
  split_ifs <;> omega

/-- An aware `datetime`; the offset from UTC is in microseconds. -/
structure DateTime where
  civil : Civil
  microsecond : Nat
  utcoffset : Int
  valid : civil.Valid
  deriving DecidableEq

/-- The day number of a date, 1 for the first of January of the year 1. -/
def Civil.toordinal (c : Civil) : Nat :=
  let y := c.year - 1
  y * 365 + y / 4 - y / 100 + y / 400 +
    ((List.range (c.month - 1)).map fun m => daysInMonth c.year (m + 1)).sum + c.day

/-- The day number of 1970-01-01. -/
def epoch : Nat := 719163

example : (⟨1970, 1, 1, 0, 0, 0⟩ : Civil).toordinal = epoch := by decide

/-- The days of a year in its first `n` months. -/
def daysBefore (year n : Nat) : Nat := ((List.range n).map fun m => daysInMonth year (m + 1)).sum

/-- The days of the years before a year. -/
def daysBeforeYear (year : Nat) : Nat :=
  let y := year - 1
  y * 365 + y / 4 - y / 100 + y / 400

theorem daysBefore_succ (year n : Nat) :
    daysBefore year (n + 1) = daysBefore year n + daysInMonth year (n + 1) := by
  simp [daysBefore, List.range_succ]

theorem daysBefore_mono (year : Nat) : Monotone (daysBefore year) :=
  monotone_nat_of_le_succ fun n => by
    rw [daysBefore_succ]
    exact Nat.le_add_right _ _

theorem daysBefore_twelve (year : Nat) : daysBefore year 12 = if isLeap year then 366 else 365 := by
  cases h : isLeap year <;> simp [daysBefore, List.range_succ, daysInMonth, h]

theorem isLeap_iff (year : Nat) : isLeap year = true ↔ 4 ∣ year ∧
    (¬100 ∣ year ∨ 400 ∣ year) := by
  simp [isLeap, Nat.dvd_iff_mod_eq_zero]

theorem daysBeforeYear_succ {year : Nat} (h : 1 ≤ year) :
    daysBeforeYear (year + 1) = daysBeforeYear year + daysBefore year 12 := by
  obtain ⟨n, rfl⟩ := Nat.exists_eq_add_of_le' h
  have hle : n / 100 ≤ n / 4 := Nat.div_le_div_left (by decide) (by decide)
  have h₁ : 100 ∣ n + 1 → 4 ∣ n + 1 := Nat.dvd_trans (by decide)
  have h₂ : 400 ∣ n + 1 → 100 ∣ n + 1 := Nat.dvd_trans (by decide)
  simp only [daysBefore_twelve, isLeap_iff, daysBeforeYear, Nat.add_sub_cancel, Nat.succ_div]
  by_cases h4 : 4 ∣ n + 1
  · by_cases h100 : 100 ∣ n + 1
    · by_cases h400 : 400 ∣ n + 1 <;> simp [h4, h100, h400] <;> omega
    · have h400 : ¬400 ∣ n + 1 := fun h => h100 (h₂ h)
      simp [h4, h100, h400]
      omega
  · have h100 : ¬100 ∣ n + 1 := fun h => h4 (h₁ h)
    have h400 : ¬400 ∣ n + 1 := fun h => h100 (h₂ h)
    simp [h4, h100, h400]
    omega

theorem daysBeforeYear_mono : Monotone daysBeforeYear :=
  monotone_nat_of_le_succ fun year => by
    rcases Nat.eq_zero_or_pos year with rfl | h
    · rfl
    · rw [daysBeforeYear_succ h]
      exact Nat.le_add_right _ _

theorem Civil.toordinal_eq (c : Civil) :
    c.toordinal = daysBeforeYear c.year + daysBefore c.year (c.month - 1) + c.day := rfl

/-- A date lies in its month. -/
theorem Civil.Valid.le_daysBefore {c : Civil} (h : c.Valid) :
    daysBefore c.year (c.month - 1) + c.day ≤ daysBefore c.year c.month := by
  obtain ⟨n, hn⟩ := Nat.exists_eq_add_of_le' h.month.1
  have hday := h.day.2
  rw [hn, daysBefore_succ]
  rw [hn] at hday
  exact Nat.add_le_add_left hday _

theorem Civil.Valid.toordinal_lt {c d : Civil} (hc : c.Valid) (hd : d.Valid)
    (h : c.year < d.year ∨ c.year = d.year ∧ c.month < d.month) :
    c.toordinal < d.toordinal := by
  have hin := hc.le_daysBefore
  have hday := hd.day.1
  rw [Civil.toordinal_eq, Civil.toordinal_eq]
  rcases h with hyear | ⟨hyear, hmonth⟩
  · have hmonth := daysBefore_mono c.year hc.month.2
    have hnext := daysBeforeYear_succ hc.year.1
    have hle := daysBeforeYear_mono (Nat.succ_le_of_lt hyear)
    rw [Nat.succ_eq_add_one] at hle
    omega
  · have hle := daysBefore_mono c.year (Nat.le_sub_one_of_lt hmonth)
    rw [← hyear]
    omega

/-- Two dates have their own numbers. -/
theorem Civil.Valid.toordinal_inj {c d : Civil} (hc : c.Valid) (hd : d.Valid)
    (h : c.toordinal = d.toordinal) : c.year = d.year ∧ c.month = d.month ∧ c.day = d.day := by
  have hyear : c.year = d.year := by
    by_contra hne
    rcases Nat.lt_or_gt_of_ne hne with hlt | hlt
    · exact absurd h (hc.toordinal_lt hd (.inl hlt)).ne
    · exact absurd h (hd.toordinal_lt hc (.inl hlt)).ne'
  have hmonth : c.month = d.month := by
    by_contra hne
    rcases Nat.lt_or_gt_of_ne hne with hlt | hlt
    · exact absurd h (hc.toordinal_lt hd (.inr ⟨hyear, hlt⟩)).ne
    · exact absurd h (hd.toordinal_lt hc (.inr ⟨hyear.symm, hlt⟩)).ne'
  rw [Civil.toordinal_eq, Civil.toordinal_eq, hyear, hmonth] at h
  exact ⟨hyear, hmonth, by omega⟩

/-- `t.timestamp()` -/
def DateTime.timestamp (t : DateTime) : ℚ :=
  ((t.civil.toordinal : ℚ) - epoch) * 86400 + t.civil.hour * 3600 + t.civil.minute * 60 +
    t.civil.second + ((t.microsecond : ℚ) - t.utcoffset) / 1000000

/-- `t.date()` -/
def DateTime.date (t : DateTime) : Nat × Nat × Nat := (t.civil.year, t.civil.month, t.civil.day)

/-- A time cut to whole seconds. -/
def DateTime.truncated (t : DateTime) : DateTime := { t with microsecond := 0 }

/-! ## Writing -/

/-- `"{:%Y_%m_%d_%Hh%Mm%Ss}".format(t)` -/
def Civil.text (c : Civil) : List Char :=
  zeroPad 4 (decText c.year) ++ '_' :: zeroPad 2 (decText c.month) ++ '_' ::
    zeroPad 2 (decText c.day) ++ '_' :: zeroPad 2 (decText c.hour) ++ 'h' ::
    zeroPad 2 (decText c.minute) ++ 'm' :: zeroPad 2 (decText c.second) ++ ['s']

/-- `"{:%Y_%m_%d_%Hh%Mm%Ss%z}".format(t)` for a time of UTC. -/
def DateTime.utcText (t : DateTime) : List Char := t.civil.text ++ ['+', '0', '0', '0', '0']

/-! ## Reading -/

/-- The literals of the format match both cases, and `s` the long s too. -/
def sameLetter (c : Char) : CharClass := fun d =>
  d == c || d == c.toUpper || (c == 's' && d == 'ſ')

/-- A text before and after the first match of a literal. -/
def cutAt (c : Char) (s : List Char) : Option (List Char × List Char) :=
  match s.dropWhile fun d => !sameLetter c d with
  | [] => none
  | _ :: rest => some (s.takeWhile fun d => !sameLetter c d, rest)

/-- A digit between two digits. -/
def between (lo hi : Char) : CharClass := fun c => lo.toNat ≤ c.toNat && c.toNat ≤ hi.toNat

/-- A field of one or two digits. -/
def field? (two : Char → CharClass) (one : CharClass) : List Char → Option Nat
  | [a, b] => if two a b then some (natOfDecimals [a, b]) else none
  | [a] => if one a then some (natOfDecimals [a]) else none
  | _ => none

/-- `%Y` -/
def year? : List Char → Option Nat
  | [a, b, c, d] => if [a, b, c, d].all decimal then some (natOfDecimals [a, b, c, d]) else none
  | _ => none

/-- `%m` -/
def month? : List Char → Option Nat :=
  field? (fun a b => (a == '1' && between '0' '2' b) || (a == '0' && between '1' '9' b))
    (between '1' '9')

/-- `%d` -/
def day? : List Char → Option Nat :=
  field? (fun a b => (a == '3' && between '0' '1' b) || (between '1' '2' a && decimal b) ||
      ((a == '0' || a == ' ') && between '1' '9' b))
    (between '1' '9')

/-- `%H` -/
def hour? : List Char → Option Nat :=
  field? (fun a b => (a == '2' && between '0' '3' b) || (between '0' '1' a && decimal b)) decimal

/-- `%M` -/
def minute? : List Char → Option Nat :=
  field? (fun a b => between '0' '5' a && decimal b) decimal

/-- `%S` -/
def second? : List Char → Option Nat :=
  field? (fun a b => (a == '6' && between '0' '1' b) || (between '0' '5' a && decimal b)) decimal

/-- The fraction of a second of an offset, in microseconds. -/
def fraction? : List Char → Option Nat
  | [] => some 0
  | '.' :: ds =>
    if ds.all decimal && ds != [] && ds.length ≤ 6 then
      some (natOfDecimals ds * 10 ^ (6 - ds.length))
    else none
  | _ => none

/-- The seconds of an offset, in microseconds: they have a colon when the minutes have one. -/
def zoneSeconds? (colon : Bool) : List Char → Option Nat
  | [] => some 0
  | s =>
    match
      if colon then s.head?.bind fun c => if c == ':' then some s.tail else none else some s with
    | some (a :: b :: rest) =>
      if between '0' '5' a && decimal b then
        (fraction? rest).map (natOfDecimals [a, b] * 1000000 + ·)
      else none
    | _ => none

/-- The part of an offset after its hours, in microseconds. -/
def zoneMinutes? (s : List Char) : Option Nat :=
  let colon := s.head? == some ':'
  match if colon then s.tail else s with
  | a :: b :: rest =>
    if between '0' '5' a && decimal b then
      (zoneSeconds? colon rest).map (natOfDecimals [a, b] * 60000000 + ·)
    else none
  | _ => none

/-- `%z`: an offset of less than a day, in microseconds. -/
def zone? : List Char → Option Int
  | ['Z'] => some 0
  | sign :: a :: b :: rest =>
    if (sign == '+' || sign == '-') && decimal a && decimal b then
      match zoneMinutes? rest with
      | some us =>
        let total := natOfDecimals [a, b] * 3600000000 + us
        if total < 86400000000 then
          some (if sign == '-' then -(total : Int) else total)
        else none
      | none => none
    else none
  | _ => none

/-- `datetime.strptime(s, "%Y_%m_%d_%Hh%Mm%Ss%z")`; `none` is the `ValueError`. -/
def strptime (s : List Char) : Option DateTime := do
  let (y, s) ← cutAt '_' s
  let (mo, s) ← cutAt '_' s
  let (d, s) ← cutAt '_' s
  let (h, s) ← cutAt 'h' s
  let (mi, s) ← cutAt 'm' s
  let (sec, z) ← cutAt 's' s
  let c : Civil :=
    ⟨← year? y, ← month? mo, ← day? d, ← hour? h, ← minute? mi, ← second? sec⟩
  let offset ← zone? z
  if hc : c.Valid then some ⟨c, 0, offset, hc⟩ else none

/-! ## Reading back -/

theorem cutAt_append {c : Char} {before after : List Char}
    (h : ∀ d ∈ before, sameLetter c d = false) :
    cutAt c (before ++ c :: after) = some (before, after) := by
  have hkeep : ∀ d ∈ before, (!sameLetter c d) = true := fun d hd => by simp [h d hd]
  have hstop : sameLetter c c = true := by simp [sameLetter]
  unfold cutAt
  rw [List.takeWhile_append_of_pos hkeep, List.dropWhile_append_of_pos hkeep]
  simp [hstop]

theorem ascii09_of_mem_padded {width n : Nat} {c : Char}
    (h : c ∈ zeroPad width (decText n)) : ascii09 c = true :=
  forall_mem_zeroPad (by decide) (fun _ hd => ascii09_of_mem_decText hd) c h

/-- No separator of the format is a digit. -/
theorem sameLetter_of_ascii09 {c d : Char} (hc : c ∈ ['_', 'h', 'm', 's'])
    (hd : ascii09 d = true) : sameLetter c d = false := by
  have hseparators : ['_', 'h', 'm', 's'].all fun c => !ascii09 c && !ascii09 c.toUpper := by decide
  obtain ⟨hlow, hup⟩ : ascii09 c = false ∧ ascii09 c.toUpper = false := by
    simpa using List.all_eq_true.mp hseparators c hc
  have hne : ∀ x, ascii09 x = false → d ≠ x := by
    rintro x hx rfl
    simp [hd] at hx
  have hlong : d ≠ 'ſ' := hne 'ſ' (by decide)
  simp [sameLetter, hne c hlow, hne c.toUpper hup, hlong]

theorem cutAt_padded {c : Char} (hc : c ∈ ['_', 'h', 'm', 's']) (width n : Nat)
    (after : List Char) :
    cutAt c (zeroPad width (decText n) ++ c :: after) = some (zeroPad width (decText n), after) :=
  cutAt_append fun _ hd => sameLetter_of_ascii09 hc (ascii09_of_mem_padded hd)

theorem year?_padded {n : Nat} (hn : n ≤ 9999) : year? (zeroPad 4 (decText n)) = some n := by
  have hlen : (zeroPad 4 (decText n)).length = 4 := length_zeroPad_decText (by omega) (by omega)
  have hdigits : ∀ c ∈ zeroPad 4 (decText n), ascii09 c = true := fun _ hc =>
    ascii09_of_mem_padded hc
  have hvalue : natOfDecimals (zeroPad 4 (decText n)) = n := by
    rw [natOfDecimals_of_digits hdigits, digitsValue_zeroPad, digitsValue_decText]
  have hall : (zeroPad 4 (decText n)).all decimal = true :=
    List.all_eq_true.mpr fun c hc => decimal_of_ascii09 (hdigits c hc)
  obtain ⟨a, b, c, d, habcd⟩ := List.length_eq_four.mp hlen
  rw [habcd] at hall hvalue ⊢
  simp only [year?, hall, if_true, hvalue]

theorem month?_padded {n : Nat} (h : 1 ≤ n ∧ n ≤ 12) :
    month? (zeroPad 2 (decText n)) = some n := by
  have hall : ∀ n < 13, 1 ≤ n → month? (zeroPad 2 (decText n)) = some n := by decide
  exact hall n (by omega) h.1

theorem day?_padded {n : Nat} (h : 1 ≤ n ∧ n ≤ 31) :
    day? (zeroPad 2 (decText n)) = some n := by
  have hall : ∀ n < 32, 1 ≤ n → day? (zeroPad 2 (decText n)) = some n := by decide
  exact hall n (by omega) h.1

theorem hour?_padded {n : Nat} (h : n < 24) : hour? (zeroPad 2 (decText n)) = some n := by
  have hall : ∀ n < 24, hour? (zeroPad 2 (decText n)) = some n := by decide
  exact hall n h

theorem minute?_padded {n : Nat} (h : n < 60) : minute? (zeroPad 2 (decText n)) = some n := by
  have hall : ∀ n < 60, minute? (zeroPad 2 (decText n)) = some n := by decide
  exact hall n h

theorem second?_padded {n : Nat} (h : n < 60) : second? (zeroPad 2 (decText n)) = some n := by
  have hall : ∀ n < 60, second? (zeroPad 2 (decText n)) = some n := by decide
  exact hall n h

/-- What is written for a time of UTC is read as that time, cut to whole seconds. -/
theorem strptime_utcText {t : DateTime} (hutc : t.utcoffset = 0) :
    strptime t.utcText = some t.truncated := by
  obtain ⟨c, us, offset, hc⟩ := t
  obtain rfl : offset = 0 := hutc
  have hday : 1 ≤ c.day ∧ c.day ≤ 31 := ⟨hc.day.1, hc.day.2.trans (daysInMonth_le _ _)⟩
  have hzone : zone? ['+', '0', '0', '0', '0'] = some 0 := by decide
  unfold DateTime.utcText Civil.text
  simp only [List.append_assoc, List.cons_append, List.nil_append]
  -- the six fields are cut off, then each is read
  refine bind_of_eq_some (cutAt_padded (by decide) 4 c.year _) ?_
  refine bind_of_eq_some (cutAt_padded (by decide) 2 c.month _) ?_
  refine bind_of_eq_some (cutAt_padded (by decide) 2 c.day _) ?_
  refine bind_of_eq_some (cutAt_padded (by decide) 2 c.hour _) ?_
  refine bind_of_eq_some (cutAt_padded (by decide) 2 c.minute _) ?_
  refine bind_of_eq_some (cutAt_padded (by decide) 2 c.second _) ?_
  refine bind_of_eq_some (year?_padded hc.year.2) ?_
  refine bind_of_eq_some (month?_padded hc.month) ?_
  refine bind_of_eq_some (day?_padded hday) ?_
  refine bind_of_eq_some (hour?_padded hc.hour) ?_
  refine bind_of_eq_some (minute?_padded hc.minute) ?_
  refine bind_of_eq_some (second?_padded hc.second) ?_
  exact bind_of_eq_some hzone (dif_pos hc)

/-- The characters of a written time. -/
theorem mem_utcText {t : DateTime} {c : Char} (h : c ∈ t.utcText) :
    ascii09 c = true ∨ c ∈ ['_', 'h', 'm', 's', '+'] := by
  simp only [DateTime.utcText, Civil.text, List.mem_append, List.mem_cons, List.not_mem_nil,
    or_false] at h
  have hpad {width n : Nat} (hc : c ∈ zeroPad width (decText n)) :
      ascii09 c = true ∨ c ∈ ['_', 'h', 'm', 's', '+'] := .inl (ascii09_of_mem_padded hc)
  obtain (((((((h | rfl | h) | rfl | h) | rfl | h) | rfl | h) | rfl | h) | rfl) |
    rfl | rfl | rfl | rfl | rfl) := h
  all_goals first | exact hpad h | decide

end CarFi.Library.PyTime

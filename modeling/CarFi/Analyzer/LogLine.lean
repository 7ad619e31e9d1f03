import CarFi.Library.Printf

/-!
# The common head of all log rows

Both programs whose logs are analysed print a row as a timestamp, the interface and a
message. The patterns of the parsers start with the same head; here the head is matched once,
so that only the message is left.
-/
namespace CarFi.Analyzer

open Library Library.Regex Library.PyText

abbrev Row := List Char
abbrev Intf := List Char

def stampClass : CharClass := fun c => c == '.' || ascii09 c
def nicClass : CharClass := fun c => asciiLetter c || ascii09 c || c == '_'

/-- The head with the timestamp and the interface in the groups `g` and `g'`. -/
def headRe (g g' : Option Nat) : Pattern :=
  [⟨g, .one stampClass⟩, ⟨g, .many stampClass⟩, ⟨none, .one (· == ':')⟩,
    ⟨none, .many space⟩,
   ⟨g', .one nicClass⟩, ⟨g', .many nicClass⟩, ⟨none, .one (· == ':')⟩]

/-- A timestamp and an interface as they can stand in a row. -/
structure LogHead where
  stamp : List Char
  nic : Intf
  stamp_ne : stamp ≠ []
  stamp_class : ∀ c ∈ stamp, stampClass c = true
  nic_ne : nic ≠ []
  nic_class : ∀ c ∈ nic, nicClass c = true

/-- A printed row. -/
def LogHead.line (head : LogHead) (msg : List Char) : Row :=
  head.stamp ++ ':' :: ' ' :: head.nic ++ ':' :: ' ' :: msg ++ ['\n']

theorem nicClass_eq_false_of_space {c : Char} (h : space c = true) : nicClass c = false := by
  have hdash : c = '_' → c.toNat = 95 := fun hc => by rw [hc]; rfl
  simp only [space, Bool.or_eq_true, Bool.and_eq_true, decide_eq_true_eq, beq_iff_eq] at h
  simp only [nicClass, asciiLetter, ascii09, Bool.or_eq_false_iff, Bool.and_eq_false_iff,
    decide_eq_false_iff_not, beq_eq_false_iff_ne, Char.reduceToNat]
  refine ⟨⟨⟨?_, ?_⟩, ?_⟩, fun hc => ?_⟩
  · omega
  · omega
  · omega
  · have := hdash hc
    omega

theorem space_eq_false_of_nicClass {c : Char} (h : nicClass c = true) : space c = false := by
  rw [Bool.eq_false_iff]
  intro hspace
  simp [nicClass_eq_false_of_space hspace] at h

/-- A blank and a name of the class of interface names. -/
theorem exec_blank_name {g : Option Nat} {r : Pattern} (hr : Rejects (exec r) nicClass)
    {name rest : List Char} (hne : name ≠ []) (hname : ∀ c ∈ name, nicClass c = true)
    (hrest : Stops nicClass rest) :
    exec (⟨none, .many space⟩ :: ⟨g, .one nicClass⟩ :: ⟨g, .many nicClass⟩ :: r)
      (' ' :: (name ++ rest)) = (exec r rest).map ((none, ' ') :: tag g name ++ ·) := by
  have hrej : Rejects (exec (⟨g, .one nicClass⟩ :: ⟨g, .many nicClass⟩ :: r)) space :=
    rejects_one fun c hc => nicClass_eq_false_of_space hc
  have hstop : Stops space (name ++ rest) := by
    obtain ⟨c, name, rfl⟩ := List.exists_cons_of_ne_nil hne
    rw [List.cons_append, stops_cons]
    exact space_eq_false_of_nicClass (hname c (by simp))
  have hblank := exec_many_append (g := none) hrej (w := [' '])
    (List.all_eq_true.mp (by decide)) hstop
  rw [List.singleton_append] at hblank
  rw [hblank, exec_plus_append hr hne hname hrest]
  simp [Option.map_map, Function.comp_def]

/-- Matching the head leaves the text after it. -/
theorem exec_headRe (g g' : Option Nat) (r : Pattern) (head : LogHead) (rest : List Char) :
    exec (headRe g g' ++ r) (head.stamp ++ ':' :: ' ' :: head.nic ++ ':' :: rest) =
      (exec r rest).map fun m => tag g head.stamp ++ tag none [':', ' '] ++ tag g' head.nic ++
        tag none [':'] ++ m := by
  have hstamp : stampClass ':' = false := by decide
  have hnic : nicClass ':' = false := by decide
  unfold headRe
  simp only [List.cons_append, List.nil_append, List.append_assoc]
  rw [exec_plus_append (rejects_char hstamp) head.stamp_ne head.stamp_class (by simpa using hstamp),
    exec_one_cons, if_pos (by decide),
    exec_blank_name (rejects_char hnic) head.nic_ne head.nic_class (by simpa using hnic)]
  simp [Option.map_map, Function.comp_def]

/-! ## The head of any row -/

/-- A row cut after its head. -/
structure HeadCut where
  stamp : List Char
  blanks : List Char
  nic : Intf
  rest : List Char
  deriving DecidableEq

def afterColon : List Char → Option (List Char)
  | ':' :: s => some s
  | _ => none

/-- The parts of the head are maximal runs, so a row has at most one head. -/
def headCut (row : Row) : Option HeadCut :=
  if row.takeWhile stampClass = [] then none else
  (afterColon (row.dropWhile stampClass)).bind fun s =>
    if (s.dropWhile space).takeWhile nicClass = [] then none else
    (afterColon ((s.dropWhile space).dropWhile nicClass)).map fun rest =>
      ⟨row.takeWhile stampClass, s.takeWhile space,
        (s.dropWhile space).takeWhile nicClass, rest⟩

/-- The interface a row is about. -/
def lineNic (row : Row) : Option Intf := (headCut row).map (·.nic)

/-- What the head consumes. -/
def HeadCut.capture (h : HeadCut) (g g' : Option Nat) : Capture :=
  tag g h.stamp ++ tag none (':' :: h.blanks) ++ tag g' h.nic ++ tag none [':']

theorem exec_colon (r : Pattern) (s : List Char) :
    exec (⟨none, .one (· == ':')⟩ :: r) s =
      (afterColon s).bind fun t => (exec r t).map (tag none [':'] ++ ·) := by
  unfold afterColon
  split
  · simp
  · rename_i hs
    cases s with
    | nil => rfl
    | cons c s =>
      have hc : c ≠ ':' := fun h => hs s (by rw [h])
      simp [hc]

/-- A pattern that starts with the head matches a row when it matches what the head leaves. -/
theorem exec_headRe_eq (g g' : Option Nat) (r : Pattern) (row : Row) :
    exec (headRe g g' ++ r) row =
      (headCut row).bind fun h => (exec r h.rest).map (h.capture g g' ++ ·) := by
  have hstamp : stampClass ':' = false := by decide
  have hnic : nicClass ':' = false := by decide
  have hspace : Rejects (exec (⟨g', .one nicClass⟩ :: ⟨g', .many nicClass⟩ ::
      ⟨none, .one (· == ':')⟩ :: r)) space :=
    rejects_one fun c hc => nicClass_eq_false_of_space hc
  simp only [headRe, headCut, List.cons_append, List.nil_append]
  rw [exec_plus_eq (rejects_char hstamp), exec_colon]
  by_cases hrow : row.takeWhile stampClass = []
  · simp [hrow]
  rw [if_neg hrow, if_neg hrow]
  cases afterColon (row.dropWhile stampClass) with
  | none => rfl
  | some s =>
    simp only [Option.bind_some]
    rw [exec_many_eq hspace, exec_plus_eq (rejects_char hnic), exec_colon]
    by_cases hname : (s.dropWhile space).takeWhile nicClass = []
    · rw [if_pos hname, if_pos hname]
      rfl
    rw [if_neg hname, if_neg hname]
    cases afterColon ((s.dropWhile space).dropWhile nicClass) with
    | none => rfl
    | some rest => simp [HeadCut.capture, Option.map_map, Function.comp_def]

/-- The timestamp and the interface of a row, as the groups of a pattern with the head. -/
theorem exists_headCut {r : Pattern} {row : Row} {m : Capture}
    (hr : r.all fun i => i.group != some 1 && i.group != some 2)
    (h : exec (headRe (some 1) (some 2) ++ r) row = some m) :
    ∃ cut, headCut row = some cut ∧ m.group 1 = cut.stamp ∧ m.group 2 = cut.nic := by
  rw [exec_headRe_eq] at h
  obtain ⟨cut, hcut, hm⟩ := Option.bind_eq_some_iff.mp h
  obtain ⟨m', hm', rfl⟩ := Option.map_eq_some_iff.mp hm
  have hgroup : ∀ i ∈ r, i.group ≠ some 1 ∧ i.group ≠ some 2 := by
    simpa [List.all_eq_true] using hr
  have hone := group_eq_nil (fun i hi => (hgroup i hi).1) hm'
  have htwo := group_eq_nil (fun i hi => (hgroup i hi).2) hm'
  exact ⟨cut, hcut, by simp [HeadCut.capture, hone], by simp [HeadCut.capture, htwo]⟩

/-! ## The message of a printed row -/

/-- What the head and the blanks before a message consume. -/
def headCapture (g g' : Option Nat) (head : LogHead) (blanks : List Char) : Capture :=
  tag g head.stamp ++ tag none [':', ' '] ++ tag g' head.nic ++ tag none (':' :: blanks)

@[simp] theorem group_headCapture (g g' : Option Nat) (head : LogHead) (blanks : List Char)
    (n : Nat) : (headCapture g g' head blanks).group n =
      (if g = some n then head.stamp else []) ++ (if g' = some n then head.nic else []) := by
  simp only [headCapture, group_append, group_tag, reduceCtorEq, if_false, List.append_nil]

/-- Matching the head and the blanks leaves the message. -/
theorem exec_message (g g' : Option Nat) {r : Pattern} (hr : Rejects (exec r) space)
    (head : LogHead) (blanks text : List Char) (hblanks : ∀ c ∈ blanks, space c = true)
    (htext : Stops space (text ++ ['\n'])) :
    exec (headRe g g' ++ ⟨none, .many space⟩ :: r) (head.line (blanks ++ text)) =
      (exec r (text ++ ['\n'])).map (headCapture g g' head (' ' :: blanks) ++ ·) := by
  have hrun := exec_many_append (g := none) hr (w := ' ' :: blanks) (s := text ++ ['\n'])
    (by simpa using ⟨by decide, hblanks⟩) htext
  have hline : head.line (blanks ++ text) =
      head.stamp ++ ':' :: ' ' :: head.nic ++ ':' :: (' ' :: blanks ++ (text ++ ['\n'])) := by
    simp [LogHead.line]
  rw [hline, exec_headRe, hrun]
  simp [headCapture, Option.map_map, Function.comp_def, tag]

/-- A pattern whose message starts with another character does not match. -/
theorem exec_message_eq_none {g g' : Option Nat} {x c : Char} {r : Pattern}
    (hx : space x = false) (hc : space c = false) (hne : c ≠ x) (head : LogHead)
    (blanks text : List Char) (hblanks : ∀ d ∈ blanks, space d = true) :
    exec (headRe g g' ++ ⟨none, .many space⟩ :: ⟨none, .one (· == x)⟩ :: r)
      (head.line (blanks ++ c :: text)) = none := by
  rw [exec_message g g' (rejects_char hx) head blanks (c :: text) hblanks (by simpa using hc)]
  simp [hne]

/-- The rest of the row up to its newline. -/
theorem exec_dot_eol {g : Option Nat} {text : List Char} (h : ∀ c ∈ text, dot c = true) :
    exec (⟨g, .many dot⟩ :: eol) (text ++ ['\n']) = some (tag g text) := by
  have hdot : dot '\n' = false := by decide
  rw [exec_many, greedy_longest h (by simpa using hdot) (m := []) (by simp [eol])]
  simp

end CarFi.Analyzer

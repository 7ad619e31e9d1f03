import Mathlib.Data.List.Basic
import Mathlib.Data.List.TakeWhile

/-!
# Backtracking patterns over character classes

The fragment of regular expressions whose only repetition is the greedy repetition of a
character class, matched the way a backtracking engine does: from the left end of the text,
trying the longest run of a repeated class first and giving characters back only when the
rest of the pattern fails. Groups are labels on the items of a pattern, and the text of a
group is the text consumed by the items with its label.

The main rule is `greedy_append`: a run of a class is consumed exactly when the rest of the
pattern rejects every character of the class. `Rejects` is computed from the pattern by
`rejects_one` and `rejects_many`.
-/
namespace CarFi.Library.Regex

/-- A class of characters, as between the brackets of a pattern. -/
abbrev CharClass := Char → Bool

inductive Piece where
  /-- Exactly one character of the class. -/
  | one (p : CharClass)
  /-- As many characters of the class as possible, possibly none. -/
  | many (p : CharClass)
  /-- The end of the text, or the position before a final newline. -/
  | eol

structure Item where
  group : Option Nat
  piece : Piece

abbrev Pattern := List Item

/-- The characters consumed by a match, each with the group that consumed it. -/
abbrev Capture := List (Option Nat × Char)

/-! ## Writing patterns -/

def one (p : CharClass) : Pattern := [⟨none, .one p⟩]
def star (p : CharClass) : Pattern := [⟨none, .many p⟩]
def plus (p : CharClass) : Pattern := one p ++ star p
def eol : Pattern := [⟨none, .eol⟩]
def lit (s : String) : Pattern := s.toList.map fun c => ⟨none, .one (· == c)⟩

/-- The group number `n` around a pattern that holds no group. -/
def grp (n : Nat) (r : Pattern) : Pattern := r.map fun i => ⟨some n, i.piece⟩

/-! ## Matching -/

def greedy (g : Option Nat) (p : CharClass) (k : List Char → Option Capture) :
    List Char → Option Capture
  | [] => k []
  | c :: s =>
    if p c then
      match greedy g p k s with
      | some m => some ((g, c) :: m)
      | none => k (c :: s)
    else k (c :: s)

/-- Match a pattern at the left end of a text. -/
def exec : Pattern → List Char → Option Capture
  | [], _ => some []
  | ⟨g, .one p⟩ :: r, s =>
    match s with
    | [] => none
    | c :: s => if p c then (exec r s).map ((g, c) :: ·) else none
  | ⟨g, .many p⟩ :: r, s => greedy g p (exec r) s
  | ⟨_, .eol⟩ :: r, s => if s = [] ∨ s = ['\n'] then exec r s else none

/-- The text consumed by the group `n`. -/
def Capture.group (m : Capture) (n : Nat) : List Char :=
  (m.filter fun x => x.1 = some n).map (·.2)

def tag (g : Option Nat) (w : List Char) : Capture := w.map fun c => (g, c)

@[simp] theorem tag_nil (g : Option Nat) : tag g [] = [] := rfl
@[simp] theorem tag_cons (g : Option Nat) (c : Char) (w : List Char) :
    tag g (c :: w) = (g, c) :: tag g w := rfl

@[simp] theorem group_nil (n : Nat) : Capture.group [] n = [] := rfl

@[simp] theorem group_cons (n : Nat) (x : Option Nat × Char) (m : Capture) :
    Capture.group (x :: m) n = if x.1 = some n then x.2 :: Capture.group m n
      else Capture.group m n := by
  unfold Capture.group
  by_cases h : x.1 = some n <;> simp [h]

@[simp] theorem group_append (m m' : Capture) (n : Nat) :
    Capture.group (m ++ m') n = Capture.group m n ++ Capture.group m' n := by
  simp [Capture.group]

@[simp] theorem group_tag (g : Option Nat) (w : List Char) (n : Nat) :
    Capture.group (tag g w) n = if g = some n then w else [] := by
  induction w with
  | nil => simp
  | cons c w ih => by_cases h : g = some n <;> simp_all

/-! ## Equations -/

@[simp] theorem exec_nil (s : List Char) : exec [] s = some [] := by simp [exec]

@[simp] theorem exec_one_nil (g : Option Nat) (p : CharClass) (r : Pattern) :
    exec (⟨g, .one p⟩ :: r) [] = none := by simp [exec]

@[simp] theorem exec_one_cons (g : Option Nat) (p : CharClass) (r : Pattern) (c : Char)
    (s : List Char) :
    exec (⟨g, .one p⟩ :: r) (c :: s) = if p c then (exec r s).map ((g, c) :: ·) else none := by
  simp [exec]

theorem exec_many (g : Option Nat) (p : CharClass) (r : Pattern) (s : List Char) :
    exec (⟨g, .many p⟩ :: r) s = greedy g p (exec r) s := by simp [exec]

@[simp] theorem exec_eol (g : Option Nat) (r : Pattern) (s : List Char) :
    exec (⟨g, .eol⟩ :: r) s = if s = [] ∨ s = ['\n'] then exec r s else none := by simp [exec]

/-- Rule for literal text. -/
theorem exec_lit_append (w : String) (r : Pattern) (s : List Char) :
    exec (lit w ++ r) (w.toList ++ s) = (exec r s).map (tag none w.toList ++ ·) := by
  unfold lit
  induction w.toList with
  | nil => simp
  | cons c w ih => simp [ih, Option.map_map, Function.comp_def]

theorem exec_lit_eq_none (w : String) (r : Pattern) {s : List Char} (h : ¬w.toList <+: s) :
    exec (lit w ++ r) s = none := by
  unfold lit
  generalize w.toList = cs at h ⊢
  induction cs generalizing s with
  | nil => exact absurd List.nil_prefix h
  | cons c cs ih =>
    cases s with
    | nil => simp
    | cons d s =>
      simp only [List.map_cons, List.cons_append, exec_one_cons]
      split
      · next hd =>
        obtain rfl : d = c := by simpa using hd
        rw [ih fun hp => h (List.cons_prefix_cons.mpr ⟨rfl, hp⟩)]
        rfl
      · rfl

/-! ## Runs of a class -/

/-- The continuation fails on every text that starts with a character of the class. -/
def Rejects (k : List Char → Option Capture) (p : CharClass) : Prop :=
  ∀ c s, p c = true → k (c :: s) = none

theorem rejects_one {g : Option Nat} {p q : CharClass} {r : Pattern}
    (h : ∀ c, p c = true → q c = false) : Rejects (exec (⟨g, .one q⟩ :: r)) p := by
  intro c s hc
  simp [h c hc]

theorem rejects_many {g : Option Nat} {p q : CharClass} {r : Pattern}
    (h : ∀ c, p c = true → q c = false) (hr : Rejects (exec r) p) :
    Rejects (exec (⟨g, .many q⟩ :: r)) p := by
  intro c s hc
  simp [exec_many, greedy, h c hc, hr c s hc]

theorem rejects_char {g : Option Nat} {p : CharClass} {x : Char} {r : Pattern} (h : p x = false) :
    Rejects (exec (⟨g, .one (· == x)⟩ :: r)) p := by
  refine rejects_one fun c hc => ?_
  rcases eq_or_ne c x with rfl | hne
  · simp [h] at hc
  · simpa using hne

theorem rejects_lit (w : String) (r : Pattern) {p : CharClass}
    (h : (w.toList.head?.any fun c => !p c) = true) : Rejects (exec (lit w ++ r)) p := by
  unfold lit
  cases hw : w.toList with
  | nil => simp [hw] at h
  | cons c cs =>
    rw [hw] at h
    exact rejects_char (by simpa using h)

theorem rejects_eol {g : Option Nat} {p : CharClass} {r : Pattern} (h : p '\n' = false) :
    Rejects (exec (⟨g, .eol⟩ :: r)) p := by
  intro c s hc
  rw [exec_eol, if_neg]
  rintro (hs | hs)
  · cases hs
  · obtain ⟨rfl, -⟩ := List.cons_eq_cons.mp hs
    simp [h] at hc

/-- A text that does not start with a character of the class. -/
def Stops (p : CharClass) (s : List Char) : Prop := ∀ c ∈ s.head?, p c = false

@[simp] theorem stops_nil (p : CharClass) : Stops p [] := by simp [Stops]
@[simp] theorem stops_cons (p : CharClass) (c : Char) (s : List Char) :
    Stops p (c :: s) ↔ p c = false := by simp [Stops]

theorem greedy_stop {g : Option Nat} {p : CharClass} {k : List Char → Option Capture}
    {s : List Char} (hs : Stops p s) : greedy g p k s = k s := by
  cases s with
  | nil => simp [greedy]
  | cons c s => simp [greedy, (stops_cons p c s).mp hs]

/-- A maximal run of a class is consumed whole when the rest rejects the class, and the
match fails when the rest fails after it. -/
theorem greedy_append {g : Option Nat} {p : CharClass} {k : List Char → Option Capture}
    (hk : Rejects k p) {w s : List Char} (hw : ∀ c ∈ w, p c = true) (hs : Stops p s) :
    greedy g p k (w ++ s) = (k s).map (tag g w ++ ·) := by
  induction w with
  | nil => simp [greedy_stop hs]
  | cons c w ih =>
    have hc : p c = true := hw c (by simp)
    have ih := ih fun d hd => hw d (by simp [hd])
    cases hks : k s with
    | none => simp [greedy, hc, ih, hks, hk c (w ++ s) hc]
    | some m => simp [greedy, hc, ih, hks]

/-- The longest run is tried first: when the rest matches after it, that is the match. -/
theorem greedy_longest {g : Option Nat} {p : CharClass} {k : List Char → Option Capture}
    {w s : List Char} {m : Capture} (hw : ∀ c ∈ w, p c = true) (hs : Stops p s)
    (hm : k s = some m) : greedy g p k (w ++ s) = some (tag g w ++ m) := by
  induction w with
  | nil => simp [greedy_stop hs, hm]
  | cons c w ih =>
    have hc : p c = true := hw c (by simp)
    simp [greedy, hc, ih fun d hd => hw d (by simp [hd])]

/-- A match inside the run is found when a longer run gives none. -/
theorem greedy_append_of_eq_some {g : Option Nat} {p : CharClass} {k : List Char → Option Capture}
    {w s : List Char} {m : Capture} (hw : ∀ c ∈ w, p c = true) (hm : greedy g p k s = some m) :
    greedy g p k (w ++ s) = some (tag g w ++ m) := by
  induction w with
  | nil => simpa using hm
  | cons c w ih =>
    have hc : p c = true := hw c (by simp)
    simp [greedy, hc, ih fun d hd => hw d (by simp [hd])]

/-- The class of the run can be wider than its characters: it is enough that the rest rejects
those. -/
theorem greedy_append_of_rejected {g : Option Nat} {p : CharClass}
    {k : List Char → Option Capture} {w s : List Char} (hw : ∀ c ∈ w, p c = true)
    (hk : ∀ c ∈ w, ∀ t, k (c :: t) = none) (hs : Stops p s) :
    greedy g p k (w ++ s) = (k s).map (tag g w ++ ·) := by
  induction w with
  | nil => simp [greedy_stop hs]
  | cons c w ih =>
    have hc : p c = true := hw c (by simp)
    have ih := ih (fun d hd => hw d (by simp [hd])) fun d hd => hk d (by simp [hd])
    cases hks : k s with
    | none => simp [greedy, hc, ih, hks, hk c (by simp)]
    | some m => simp [greedy, hc, ih, hks]

theorem greedy_eq_of_suffix_none {g : Option Nat} {p : CharClass} {k : List Char → Option Capture}
    {s : List Char} (h : ∀ t, t <:+ s → t ≠ s → k t = none) : greedy g p k s = k s := by
  induction s with
  | nil => simp [greedy]
  | cons c s ih =>
    have hs : greedy g p k s = none := by
      rw [ih fun t ht hne => h t (ht.trans (List.suffix_cons c s)) fun heq => ?_]
      · exact h s (List.suffix_cons c s) (by simp)
      · have hle := ht.length_le
        rw [heq, List.length_cons] at hle
        omega
    simp [greedy, hs]

/-- Rule for `many`: the run `w` is consumed, then the rest is matched on `s`. -/
theorem exec_many_append {g : Option Nat} {p : CharClass} {r : Pattern} (hr : Rejects (exec r) p)
    {w s : List Char} (hw : ∀ c ∈ w, p c = true) (hs : Stops p s) :
    exec (⟨g, .many p⟩ :: r) (w ++ s) = (exec r s).map (tag g w ++ ·) := by
  rw [exec_many, greedy_append hr hw hs]

/-- Rule for a non-empty run, as a pattern writes it with `+`. -/
theorem exec_plus_append {g : Option Nat} {p : CharClass} {r : Pattern} (hr : Rejects (exec r) p)
    {w s : List Char} (hne : w ≠ []) (hw : ∀ c ∈ w, p c = true) (hs : Stops p s) :
    exec (⟨g, .one p⟩ :: ⟨g, .many p⟩ :: r) (w ++ s) = (exec r s).map (tag g w ++ ·) := by
  cases w with
  | nil => exact absurd rfl hne
  | cons c w =>
    have hc : p c = true := hw c (by simp)
    have hw' : ∀ d ∈ w, p d = true := fun d hd => hw d (by simp [hd])
    rw [List.cons_append, exec_one_cons, if_pos hc, exec_many_append hr hw' hs, Option.map_map]
    rfl

theorem exec_plus_of_rejected {g : Option Nat} {p : CharClass} {r : Pattern} {w s : List Char}
    (hne : w ≠ []) (hw : ∀ c ∈ w, p c = true)
    (hr : ∀ c ∈ w, ∀ t, exec r (c :: t) = none) (hs : Stops p s) :
    exec (⟨g, .one p⟩ :: ⟨g, .many p⟩ :: r) (w ++ s) = (exec r s).map (tag g w ++ ·) := by
  cases w with
  | nil => exact absurd rfl hne
  | cons c w =>
    have hc : p c = true := hw c (by simp)
    have hw' : ∀ d ∈ w, p d = true := fun d hd => hw d (by simp [hd])
    have hgreedy := greedy_append_of_rejected (g := g) hw' (fun d hd => hr d (by simp [hd])) hs
    rw [List.cons_append, exec_one_cons, if_pos hc, exec_many, hgreedy, Option.map_map]
    rfl

/-- Rule for a run at the start of any text. -/
theorem exec_many_eq {g : Option Nat} {p : CharClass} {r : Pattern} (hr : Rejects (exec r) p)
    (s : List Char) :
    exec (⟨g, .many p⟩ :: r) s =
      (exec r (s.dropWhile p)).map (tag g (s.takeWhile p) ++ ·) := by
  have hrun : ∀ c ∈ s.takeWhile p, p c = true := fun c hc => List.mem_takeWhile_imp hc
  have hstop : Stops p (s.dropWhile p) := by
    intro c hc
    have hnot := List.head?_dropWhile_not p s
    rw [Option.mem_def.mp hc] at hnot
    simpa using hnot
  have hrule := exec_many_append (g := g) hr hrun hstop
  rwa [List.takeWhile_append_dropWhile] at hrule

theorem exec_plus_eq {g : Option Nat} {p : CharClass} {r : Pattern} (hr : Rejects (exec r) p)
    (s : List Char) :
    exec (⟨g, .one p⟩ :: ⟨g, .many p⟩ :: r) s =
      if s.takeWhile p = [] then none
      else (exec r (s.dropWhile p)).map (tag g (s.takeWhile p) ++ ·) := by
  cases s with
  | nil => simp
  | cons c s =>
    by_cases hc : p c = true
    · simp [hc, exec_many_eq hr, Option.map_map, Function.comp_def]
    · simp [hc]

/-- The same rule when the rest matches after the longest run, whatever it does elsewhere. -/
theorem exec_plus_longest {g : Option Nat} {p : CharClass} {r : Pattern} {w s : List Char}
    {m : Capture} (hne : w ≠ []) (hw : ∀ c ∈ w, p c = true) (hs : Stops p s)
    (hm : exec r s = some m) :
    exec (⟨g, .one p⟩ :: ⟨g, .many p⟩ :: r) (w ++ s) = some (tag g w ++ m) := by
  cases w with
  | nil => exact absurd rfl hne
  | cons c w =>
    have hc : p c = true := hw c (by simp)
    have hw' : ∀ d ∈ w, p d = true := fun d hd => hw d (by simp [hd])
    rw [List.cons_append, exec_one_cons, if_pos hc, exec_many, greedy_longest hw' hs hm]
    rfl

/-- Rule for a gap: a run up to literal text that occurs nowhere later. -/
theorem exec_gap {g : Option Nat} {p : CharClass} {w : String} {r : Pattern}
    {before after : List Char} {m : Capture} (hbefore : ∀ c ∈ before, p c = true)
    (hlast : ∀ t, t <:+ w.toList ++ after → t ≠ w.toList ++ after → ¬ w.toList <+: t)
    (hm : exec r after = some m) :
    exec (⟨g, .many p⟩ :: (lit w ++ r)) (before ++ (w.toList ++ after)) =
      some (tag g before ++ (tag none w.toList ++ m)) := by
  have hlit : exec (lit w ++ r) (w.toList ++ after) = some (tag none w.toList ++ m) := by
    rw [exec_lit_append, hm]
    rfl
  have hgreedy := greedy_eq_of_suffix_none (g := g) (p := p) (k := exec (lit w ++ r))
    fun t ht hne => exec_lit_eq_none w r (hlast t ht hne)
  rw [exec_many]
  exact greedy_append_of_eq_some hbefore (hgreedy.trans hlit)

/-- Literal text occurs nowhere later when one of its characters does not. -/
theorem last_of_notMem {w after u v : List Char} {x : Char} (hw : w = u ++ x :: v)
    (hv : x ∉ v) (hafter : x ∉ after) :
    ∀ t, t <:+ w ++ after → t ≠ w ++ after → ¬ w <+: t := by
  rintro t ⟨front, hfront⟩ hne ⟨rest, rfl⟩
  have hpos : 0 < front.length := by
    rw [List.length_pos_iff]
    rintro rfl
    exact hne hfront
  -- the character stands after its last place
  have hmem : (v ++ after)[front.length - 1]? = some x := by
    have hget : (w ++ after)[front.length + u.length]? = some x := by
      rw [← hfront, List.getElem?_append_right (by omega), hw]
      simp
    rw [hw, List.append_assoc, List.getElem?_append_right (by omega)] at hget
    obtain ⟨k, hk⟩ : ∃ k, front.length = k + 1 := ⟨front.length - 1, by omega⟩
    simpa [hk] using hget
  rcases List.mem_append.mp (List.mem_of_getElem? hmem) with h | h
  · exact hv h
  · exact hafter h

/-! ## What a match says of the text -/

def Piece.accepts : Piece → CharClass
  | .one p => p
  | .many p => p
  | .eol => (· == '\n')

theorem greedy_eq_some {g : Option Nat} {p : CharClass} {k : List Char → Option Capture}
    {s : List Char} {m : Capture} (h : greedy g p k s = some m) :
    ∃ w t m', s = w ++ t ∧ (∀ c ∈ w, p c = true) ∧ k t = some m' ∧
      m = tag g w ++ m' := by
  induction s generalizing m with
  | nil => exact ⟨[], [], m, rfl, by simp, by simpa [greedy] using h, rfl⟩
  | cons c s ih =>
    simp only [greedy] at h
    split at h
    · rename_i hc
      split at h
      · rename_i m' hm'
        obtain ⟨w, t, n, rfl, hw, hn, rfl⟩ := ih hm'
        exact ⟨c :: w, t, n, rfl, by simpa using ⟨hc, hw⟩, hn, (Option.some.inj h).symm⟩
      · exact ⟨[], c :: s, m, rfl, by simp, h, rfl⟩
    · exact ⟨[], c :: s, m, rfl, by simp, h, rfl⟩

/-- A consumed character was accepted by an item of its group. -/
theorem accepts_of_mem {r : Pattern} {s : List Char} {m : Capture} (h : exec r s = some m)
    {x : Option Nat × Char} (hx : x ∈ m) : ∃ i ∈ r, i.group = x.1 ∧
      i.piece.accepts x.2 = true := by
  induction r generalizing s m with
  | nil =>
    rw [exec_nil, Option.some.injEq] at h
    simp [← h] at hx
  | cons i r ih =>
    have hrest {t : List Char} {m' : Capture} (ht : exec r t = some m') (hx : x ∈ m') :
        ∃ j ∈ i :: r, j.group = x.1 ∧ j.piece.accepts x.2 = true := by
      obtain ⟨j, hj, hacc⟩ := ih ht hx
      exact ⟨j, by simp [hj], hacc⟩
    obtain ⟨g, piece⟩ := i
    cases piece with
    | one p =>
      cases s with
      | nil => simp at h
      | cons c s =>
        simp only [exec_one_cons] at h
        split at h
        · rename_i hc
          obtain ⟨m', hm', rfl⟩ := Option.map_eq_some_iff.mp h
          rcases List.mem_cons.mp hx with rfl | hx
          · exact ⟨⟨g, .one p⟩, by simp, rfl, hc⟩
          · exact hrest hm' hx
        · cases h
    | many p =>
      rw [exec_many] at h
      obtain ⟨w, t, m', -, hw, ht, rfl⟩ := greedy_eq_some h
      rcases List.mem_append.mp hx with hx | hx
      · obtain ⟨c, hc, rfl⟩ := List.mem_map.mp hx
        exact ⟨⟨g, .many p⟩, by simp, rfl, hw c hc⟩
      · exact hrest ht hx
    | eol =>
      simp only [exec_eol] at h
      split at h
      · exact hrest h hx
      · cases h

theorem mem_group {m : Capture} {n : Nat} {c : Char} : c ∈ m.group n ↔ (some n, c) ∈ m := by
  simp [Capture.group]

/-- A group that no item of the pattern has is empty. -/
theorem group_eq_nil {r : Pattern} {n : Nat} (hr : ∀ i ∈ r, i.group ≠ some n) {s : List Char}
    {m : Capture} (h : exec r s = some m) : m.group n = [] := by
  rw [List.eq_nil_iff_forall_not_mem]
  intro c hc
  obtain ⟨i, hi, hgroup, -⟩ := accepts_of_mem h (mem_group.mp hc)
  exact hr i hi hgroup

/-- A group with an item that consumes one character is not empty. -/
theorem group_ne_nil {r : Pattern} {n : Nat} {p : CharClass} (hr : ⟨some n, .one p⟩ ∈ r)
    {s : List Char} {m : Capture} (h : exec r s = some m) : m.group n ≠ [] := by
  induction r generalizing s m with
  | nil => cases hr
  | cons i r ih =>
    obtain ⟨g, piece⟩ := i
    cases piece with
    | one q =>
      cases s with
      | nil => simp at h
      | cons c s =>
        simp only [exec_one_cons] at h
        split at h
        · obtain ⟨m', hm', rfl⟩ := Option.map_eq_some_iff.mp h
          rcases List.mem_cons.mp hr with heq | hr
          · obtain rfl : g = some n := by simpa using (congrArg Item.group heq).symm
            simp
          · have hne := ih hr hm'
            simp only [group_cons]
            split <;> simp [hne]
        · cases h
    | many q =>
      have hr : ⟨some n, .one p⟩ ∈ r := by simpa using hr
      rw [exec_many] at h
      obtain ⟨w, t, m', -, -, hm', rfl⟩ := greedy_eq_some h
      simp [ih hr hm']
    | eol =>
      have hr : ⟨some n, .one p⟩ ∈ r := by simpa using hr
      simp only [exec_eol] at h
      split at h
      · exact ih hr h
      · cases h

/-- A pattern that is matched to the end of the text accepts all its characters. -/
theorem accepts_of_exec {r : Pattern} {s : List Char} {m : Capture}
    (h : exec (r ++ eol) s = some m) :
    ∀ c ∈ s, (∃ i ∈ r, i.piece.accepts c = true) ∨ c = '\n' := by
  have hlast : ∀ {t : List Char}, t = [] ∨ t = ['\n'] → ∀ c ∈ t, c = '\n' := by
    rintro t (rfl | rfl) <;> simp
  induction r generalizing s m with
  | nil =>
    simp only [eol, List.nil_append, exec_eol] at h
    split at h
    · rename_i hs
      exact fun c hc => .inr (hlast hs c hc)
    · cases h
  | cons i r ih =>
    have hrest : ∀ {t : List Char} {m : Capture}, exec (r ++ eol) t = some m → ∀ c ∈ t,
        (∃ j ∈ i :: r, j.piece.accepts c = true) ∨ c = '\n' := by
      intro t m ht c hc
      refine (ih ht c hc).imp_left ?_
      rintro ⟨j, hj, hacc⟩
      exact ⟨j, by simp [hj], hacc⟩
    obtain ⟨g, piece⟩ := i
    rw [List.cons_append] at h
    cases piece with
    | one p =>
      cases s with
      | nil => simp at h
      | cons d s =>
        simp only [exec_one_cons] at h
        split at h
        · rename_i hd
          obtain ⟨m', hm', -⟩ := Option.map_eq_some_iff.mp h
          intro c hc
          rcases List.mem_cons.mp hc with rfl | hc
          · exact .inl ⟨⟨g, .one p⟩, by simp, hd⟩
          · exact hrest hm' c hc
        · cases h
    | many p =>
      rw [exec_many] at h
      obtain ⟨w, t, m', rfl, hw, hm', -⟩ := greedy_eq_some h
      intro c hc
      rcases List.mem_append.mp hc with hc | hc
      · exact .inl ⟨⟨g, .many p⟩, by simp, hw c hc⟩
      · exact hrest hm' c hc
    | eol =>
      simp only [exec_eol] at h
      split at h
      · rename_i hs
        exact fun c hc => .inr (hlast hs c hc)
      · cases h

/-- A repeated class consumes a run that is not empty. -/
theorem exec_plus_eq_some {g : Option Nat} {p : CharClass} {r : Pattern} {s : List Char}
    {m : Capture} (h : exec (⟨g, .one p⟩ :: ⟨g, .many p⟩ :: r) s = some m) :
    ∃ c w t m', s = c :: w ++ t ∧ (∀ d ∈ c :: w, p d = true) ∧ exec r t = some m' := by
  cases s with
  | nil => simp at h
  | cons c s =>
    rw [exec_one_cons] at h
    split at h
    · rename_i hc
      obtain ⟨m₁, hm₁, -⟩ := Option.map_eq_some_iff.mp h
      rw [exec_many] at hm₁
      obtain ⟨w, t, m', rfl, hw, hm', -⟩ := greedy_eq_some hm₁
      exact ⟨c, w, t, m', rfl, List.forall_mem_cons.mpr ⟨hc, hw⟩, hm'⟩
    · cases h

theorem isPrefix_of_exec_lit {w : String} {r : Pattern} {s : List Char} {m : Capture}
    (h : exec (lit w ++ r) s = some m) : w.toList <+: s := by
  by_contra hnot
  rw [exec_lit_eq_none w r hnot] at h
  cases h

/-- Literal text that a pattern looks for after a run stands in the text. -/
theorem isInfix_of_exec_star {p : CharClass} {w : String} {r : Pattern} {s : List Char}
    {m : Capture} (h : exec (star p ++ (lit w ++ r)) s = some m) : w.toList <:+: s := by
  rw [star, List.singleton_append, exec_many] at h
  obtain ⟨run, t, m', rfl, -, hm', -⟩ := greedy_eq_some h
  have hpre := isPrefix_of_exec_lit hm'
  exact hpre.isInfix.trans (List.suffix_append run t).isInfix

/-! ## Texts that match -/

theorem isSome_greedy_of_rest {g : Option Nat} {p : CharClass} {k : List Char → Option Capture}
    {s : List Char} (h : (k s).isSome) : (greedy g p k s).isSome := by
  cases s with
  | nil => exact h
  | cons c s =>
    rw [greedy]
    split
    · split
      · rfl
      · exact h
    · exact h

theorem isSome_greedy_append {g : Option Nat} {p : CharClass} {k : List Char → Option Capture}
    {w s : List Char} (hw : ∀ c ∈ w, p c = true) (h : (greedy g p k s).isSome) :
    (greedy g p k (w ++ s)).isSome := by
  induction w with
  | nil => exact h
  | cons c w ih =>
    obtain ⟨hc, hw⟩ := List.forall_mem_cons.mp hw
    obtain ⟨m, hm⟩ := Option.isSome_iff_exists.mp (ih hw)
    rw [List.cons_append, greedy, if_pos hc, hm]
    rfl

/-- A repeated class may consume any run after which the rest matches. -/
theorem isSome_many_iff {g : Option Nat} {p : CharClass} {r : Pattern} {s : List Char} :
    (exec (⟨g, .many p⟩ :: r) s).isSome ↔
      ∃ w t, s = w ++ t ∧ (∀ c ∈ w, p c = true) ∧ (exec r t).isSome := by
  rw [exec_many]
  constructor
  · intro h
    obtain ⟨m, hm⟩ := Option.isSome_iff_exists.mp h
    obtain ⟨w, t, m', rfl, hw, hm', -⟩ := greedy_eq_some hm
    exact ⟨w, t, rfl, hw, Option.isSome_of_mem hm'⟩
  · rintro ⟨w, t, rfl, hw, ht⟩
    exact isSome_greedy_append hw (isSome_greedy_of_rest ht)

theorem isSome_plus_iff {g : Option Nat} {p : CharClass} {r : Pattern} {s : List Char} :
    (exec (⟨g, .one p⟩ :: ⟨g, .many p⟩ :: r) s).isSome ↔
      ∃ c w t, s = c :: w ++ t ∧ (∀ d ∈ c :: w, p d = true) ∧ (exec r t).isSome := by
  constructor
  · intro h
    obtain ⟨m, hm⟩ := Option.isSome_iff_exists.mp h
    obtain ⟨c, w, t, m', hs, hw, hm'⟩ := exec_plus_eq_some hm
    exact ⟨c, w, t, hs, hw, Option.isSome_of_mem hm'⟩
  · rintro ⟨c, w, t, rfl, hw, ht⟩
    obtain ⟨hc, hw⟩ := List.forall_mem_cons.mp hw
    rw [List.cons_append, exec_one_cons, if_pos hc, Option.isSome_map]
    exact isSome_many_iff.mpr ⟨w, t, rfl, hw, ht⟩

theorem isSome_lit_iff {w : String} {r : Pattern} {s : List Char} :
    (exec (lit w ++ r) s).isSome ↔ ∃ t, s = w.toList ++ t ∧ (exec r t).isSome := by
  constructor
  · intro h
    obtain ⟨m, hm⟩ := Option.isSome_iff_exists.mp h
    obtain ⟨t, rfl⟩ := isPrefix_of_exec_lit hm
    rw [exec_lit_append, Option.isSome_map] at h
    exact ⟨t, rfl, h⟩
  · rintro ⟨t, rfl, ht⟩
    rwa [exec_lit_append, Option.isSome_map]

end CarFi.Library.Regex

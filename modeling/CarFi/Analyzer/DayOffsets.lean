import Mathlib.Algebra.Order.Floor.Ring
import Mathlib.Data.Rat.Floor
import Mathlib.Tactic.Linarith
import Mathlib.Tactic.Ring
import CarFi.Analyzer.ExperimentName
import CarFi.Library.KeySort
import CarFi.Library.Runs

/-!
# GPS offsets of the days

`analyzer/sync_gpstime2local.py` estimates by how many seconds the GPS clock is off on each day. A
day with samples gets their median. The days without samples are filled from their neighbours in two
passes, and `-1` stands for a day that has no value yet.
-/
namespace CarFi.Analyzer

open Library

/-! ## The samples of a day -/

/-- The list `drive`, which is never empty. -/
structure Drive where
  first : DayExp
  rest : List DayExp

def Drive.last (drive : Drive) : DayExp := drive.rest.getLastD drive.first

/-- One turn of the loop in `filter_offsets`. -/
def driveStep (s : List DayExp × Drive) (exp : DayExp) : List DayExp × Drive :=
  if exp.startTime - s.2.last.endTime ≤ 30 then
    (s.1, { s.2 with rest := s.2.rest ++ [exp] })
  else (s.1 ++ s.2.rest, ⟨exp, []⟩)

def filterOffsets : List DayExp → List ℚ
  | [] => []
  | exp :: dayExps =>
    let (offsets, drive) := dayExps.foldl driveStep ([], ⟨exp, []⟩)
    (offsets ++ drive.rest).filterMap DayExp.offset

/-! ## The two passes -/

/-- An item of `exp_dict` -/
structure DayEntry where
  day : ℤ
  exps : List DayExp

/-- The dictionary that `clustering_exp_by_day` builds, with the days as numbers. -/
structure DayDict where
  entries : List DayEntry
  nodup : (entries.map DayEntry.day).Nodup
  nonempty : ∀ e ∈ entries, e.exps ≠ []

def factor : ℚ := 13 / 10

/-- One turn of the first pass, with `np.median`. -/
def passOneStep (median : List ℚ → ℚ) (offsetOverDay : List (ℤ × ℚ)) (e : DayEntry) :
    List (ℤ × ℚ) :=
  let offsets := filterOffsets (sortBy DayExp.startTime e.exps)
  if 0 < offsets.length then offsetOverDay ++ [(e.day, median offsets)]
  else
    match offsetOverDay.getLast? with
    | none => offsetOverDay ++ [(e.day, -1)]
    | some (day, value) =>
      if value = -1 then offsetOverDay ++ [(e.day, -1)]
      else offsetOverDay ++ [(e.day, value + (e.day - day) * factor)]

/-- One turn of the second pass, which comes from the right and leaves the last day alone. -/
def passTwoStep (x : ℤ × ℚ) (offsetOverDay : List (ℤ × ℚ)) : List (ℤ × ℚ) :=
  match offsetOverDay with
  | [] => [x]
  | (day, value) :: _ =>
    (if x.2 = -1 then (x.1, value + (x.1 - day) * factor) else x) :: offsetOverDay

def passTwo (offsetOverDay : List (ℤ × ℚ)) : List (ℤ × ℚ) :=
  offsetOverDay.foldr passTwoStep []

/-- `averaging_offset_for_each_day` -/
def averagingOffsetForEachDay (median : List ℚ → ℚ) (dict : DayDict) : List (ℤ × ℤ) :=
  (passTwo ((sortBy DayEntry.day dict.entries).foldl (passOneStep median) [])).map
    fun x => (x.1, ⌊x.2⌋)

/-- The number of a day -/
def dayNumber (date : Nat × Nat × Nat) : ℤ :=
  (⟨date.1, date.2.1, date.2.2, 0, 0, 0⟩ : PyTime.Civil).toordinal

theorem dayNumber_inj {t u : PyTime.DateTime} (h : dayNumber t.date = dayNumber u.date) :
    t.date = u.date := by
  obtain ⟨hyear, hmonth, hday⟩ := t.valid.toordinal_inj u.valid (Int.ofNat_inj.mp h)
  rw [PyTime.DateTime.date, PyTime.DateTime.date, hyear, hmonth, hday]

/-- What `main` gives to `averaging_offset_for_each_day` is such a dictionary. -/
theorem clusteringExpByDay_dayDict {ts : List (Tarball × Option ℚ)}
    (h : ∀ t ∈ ts, '-' ∉ t.1.loc) :
    ∃ (exps : ExpDict) (dict : DayDict),
      clusteringExpByDay (ts.map fun t => (t.1.exp, t.2)) = .ok exps ∧ exps.Groups ts ∧
        dict.entries = exps.map fun day => ⟨dayNumber day.1, day.2⟩ := by
  obtain ⟨exps, hok, hgroups⟩ := clusteringExpByDay_groups h
  have hstart {day : (Nat × Nat × Nat) × List DayExp} (hday : day ∈ exps) :
      ∃ t ∈ ts, t.1.startTime.date = day.1 := (hgroups.days day.1).mp (List.mem_map_of_mem hday)
  refine ⟨exps, ⟨_, ?_, ?_⟩, hok, hgroups, rfl⟩
  · rw [List.map_map]
    have hnodup := List.pairwise_map.mp hgroups.nodup
    refine List.pairwise_map.mpr (hnodup.imp_of_mem fun {a b} ha hb hne heq => hne ?_)
    obtain ⟨t, -, ht⟩ := hstart ha
    obtain ⟨u, -, hu⟩ := hstart hb
    rw [← ht, ← hu]
    refine dayNumber_inj ?_
    rw [ht, hu]
    exact heq
  · intro e he
    obtain ⟨day, hday, rfl⟩ := List.mem_map.mp he
    obtain ⟨t, ht, hdate⟩ := hstart hday
    rw [hgroups.exps day hday]
    refine List.ne_nil_of_mem (List.mem_map_of_mem (List.mem_filter.mpr ⟨ht, ?_⟩))
    exact decide_eq_true hdate

/-! ## Usable samples -/

/-- The next experiment starts at most 30 s after this one's end. -/
def DayExp.continues (exp next : DayExp) : Bool := next.startTime - exp.endTime ≤ 30

/-- The known offsets of all experiments but the first one of each drive. -/
def usableOffsets (dayExps : List DayExp) : List ℚ :=
  ((dayExps.splitBy DayExp.continues).flatMap List.tail).filterMap DayExp.offset

/-- The drives so far are the maximal runs. -/
theorem foldl_driveStep (exp : DayExp) (exps : List DayExp) :
    ∃ gs drive, exps.foldl driveStep ([], ⟨exp, []⟩) = (gs.flatMap List.tail, drive) ∧
      (exp :: exps).getLast? = some drive.last ∧
      (exp :: exps).splitBy DayExp.continues = gs ++ [drive.first :: drive.rest] := by
  induction exps using List.reverseRecOn with
  | nil => exact ⟨[], ⟨exp, []⟩, rfl, rfl, rfl⟩
  | append_singleton exps next ih =>
    obtain ⟨gs, drive, hfold, hlast, hruns⟩ := ih
    rw [List.foldl_concat, hfold, driveStep]
    by_cases hgap : next.startTime - drive.last.endTime ≤ 30
    · refine ⟨gs, { drive with rest := drive.rest ++ [next] }, if_pos hgap, ?_, ?_⟩
      · rw [← List.cons_append, List.getLast?_concat]
        simp [Drive.last]
      · obtain ⟨init, hinit⟩ := List.getLast?_eq_some_iff.mp hlast
        have hlastRun : ∃ g, drive.first :: drive.rest = g ++ [drive.last] := by
          rcases List.eq_nil_or_concat' drive.rest with h | ⟨g, b, h⟩
          · exact ⟨[], by simp [Drive.last, h]⟩
          · exact ⟨drive.first :: g, by simp [Drive.last, h]⟩
        obtain ⟨g, hg⟩ := hlastRun
        rw [hinit, hg] at hruns
        have hextend := splitBy_concat_extend hruns (a := next) (decide_eq_true hgap)
        rw [← List.cons_append, hinit, hextend, ← hg]
        rfl
    · refine ⟨gs ++ [drive.first :: drive.rest], ⟨next, []⟩, ?_, ?_, ?_⟩
      · rw [if_neg hgap]
        simp
      · rw [← List.cons_append, List.getLast?_concat]
        rfl
      · rw [← List.cons_append, splitBy_concat_fresh, hruns]
        rw [hlast]
        rintro b ⟨⟩
        exact decide_eq_false hgap

theorem filterOffsets_eq (dayExps : List DayExp) :
    filterOffsets dayExps = usableOffsets dayExps := by
  cases dayExps with
  | nil => rfl
  | cons exp exps =>
    obtain ⟨gs, drive, hfold, -, hruns⟩ := foldl_driveStep exp exps
    simp [filterOffsets, usableOffsets, hfold, hruns]

/-! ## The first pass -/

/-- The median of a day's usable samples -/
def DayEntry.median? (median : List ℚ → ℚ) (e : DayEntry) : Option ℚ :=
  let samples := usableOffsets (sortBy DayExp.startTime e.exps)
  if samples = [] then none else some (median samples)

/-- The days in their order, with the medians of those that have samples. -/
def DayDict.medians (median : List ℚ → ℚ) (dict : DayDict) : List (ℤ × Option ℚ) :=
  (sortBy DayEntry.day dict.entries).map fun e => (e.day, e.median? median)

/-- The value of a day in the first pass. -/
def passOneValue (offsetOverDay : List (ℤ × ℚ)) (day : ℤ) : Option ℚ → ℚ
  | some m => m
  | none =>
    match offsetOverDay.getLast? with
    | none => -1
    | some (prev, value) => if value = -1 then -1 else value + (day - prev) * factor

def passOne (days : List (ℤ × Option ℚ)) : List (ℤ × ℚ) :=
  days.foldl (fun acc p => acc ++ [(p.1, passOneValue acc p.1 p.2)]) []

theorem foldl_passOneStep (median : List ℚ → ℚ) (dict : DayDict) :
    (sortBy DayEntry.day dict.entries).foldl (passOneStep median) [] =
      passOne (dict.medians median) := by
  rw [passOne, DayDict.medians, List.foldl_map]
  congr 1
  funext acc e
  simp only [passOneStep, DayEntry.median?, filterOffsets_eq, List.length_pos_iff]
  by_cases h : usableOffsets (sortBy DayExp.startTime e.exps) = []
  · rw [if_neg (not_not.mpr h), if_pos h]
    cases hlast : acc.getLast? with
    | none => simp [passOneValue, hlast]
    | some p => by_cases hp : p.2 = -1 <;> simp [passOneValue, hlast, hp]
  · rw [if_pos h, if_neg h]
    rfl

theorem passOne_concat (days : List (ℤ × Option ℚ)) (day : ℤ) (x : Option ℚ) :
    passOne (days ++ [(day, x)]) =
      passOne days ++ [(day, passOneValue (passOne days) day x)] := by
  rw [passOne, List.foldl_concat]
  rfl

theorem map_fst_passOne (days : List (ℤ × Option ℚ)) :
    (passOne days).map Prod.fst = days.map Prod.fst := by
  induction days using List.reverseRecOn with
  | nil => rfl
  | append_singleton days p ih => rw [passOne_concat, List.map_append, ih, List.map_append]; rfl

/-- Days in their order. -/
def InOrder {α : Type*} (days : List (ℤ × α)) : Prop := days.Pairwise fun p q => p.1 < q.1

/-- The last day with samples that is not after the given one. -/
structure Before (days : List (ℤ × Option ℚ)) (day j : ℤ) (m : ℚ) : Prop where
  mem : (j, some m) ∈ days
  le : j ≤ day
  nearest : ∀ k m', (k, some m') ∈ days → k ≤ day → k ≤ j

/-- The first day with samples after the given one. -/
structure After (days : List (ℤ × Option ℚ)) (day j : ℤ) (m : ℚ) : Prop where
  mem : (j, some m) ∈ days
  lt : day < j
  nearest : ∀ k m', (k, some m') ∈ days → day < k → j ≤ k

/-- The value of a day that is interpolated from day `j`. -/
def interpolated (j : ℤ) (m : ℚ) (day : ℤ) : ℚ := m + (day - j) * factor

/-- What the first pass can give a day: the interpolated value if no day since `j` had the value
that stands for no value, and that value otherwise. -/
inductive PassOne (days : List (ℤ × Option ℚ)) (day : ℤ) : ℚ → Prop
  | filled {j : ℤ} {m : ℚ} : Before days day j m →
      (∀ e x, (e, x) ∈ days → j ≤ e → e < day → interpolated j m e ≠ -1) →
      PassOne days day (interpolated j m day)
  | stuck {j : ℤ} {m : ℚ} {e : ℤ} {x : Option ℚ} :
      Before days day j m → (e, x) ∈ days → j ≤ e → e < day →
        interpolated j m e = -1 → PassOne days day (-1)
  | blank : (∀ k m, (k, some m) ∈ days → day < k) → PassOne days day (-1)

theorem mem_concat_of_le {days : List (ℤ × Option ℚ)} {p q : ℤ × Option ℚ}
    (hp : p ∈ days ++ [q]) {day : ℤ} (hle : p.1 ≤ day) (hlt : day < q.1) : p ∈ days := by
  rcases List.mem_append.mp hp with hp | hp
  · exact hp
  · rw [List.mem_singleton.mp hp] at hle
    omega

theorem Before.concat {days : List (ℤ × Option ℚ)} {day j : ℤ} {m : ℚ}
    (h : Before days day j m) {p : ℤ × Option ℚ} (hp : day < p.1) :
    Before (days ++ [p]) day j m :=
  ⟨by simp [h.mem], h.le, fun k m' hk hle => h.nearest k m' (mem_concat_of_le hk hle hp) hle⟩

/-- A later day changes nothing. -/
theorem PassOne.concat {days : List (ℤ × Option ℚ)} {day : ℤ} {a : ℚ}
    (h : PassOne days day a) {p : ℤ × Option ℚ} (hp : day < p.1) :
    PassOne (days ++ [p]) day a := by
  cases h with
  | filled hb hfree =>
    exact .filled (hb.concat hp) fun e x he hj hlt =>
      hfree e x (mem_concat_of_le he hlt.le hp) hj hlt
  | stuck hb he hj hlt heq => exact .stuck (hb.concat hp) (List.mem_append_left _ he) hj hlt heq
  | blank hnone =>
    refine .blank fun k m hk => ?_
    by_contra hle
    have hmem := mem_concat_of_le hk (not_lt.mp hle) hp
    exact hle (hnone k m hmem)

/-- The value of the next day. -/
theorem PassOne.next {days : List (ℤ × Option ℚ)} {acc : List (ℤ × ℚ)} {day : ℤ}
    (hfst : acc.map Prod.fst = days.map Prod.fst) (horder : InOrder acc)
    (hacc : ∀ p ∈ acc, PassOne days p.1 p.2) (hlater : ∀ p ∈ days, p.1 < day)
    (x : Option ℚ) : PassOne (days ++ [(day, x)]) day (passOneValue acc day x) := by
  cases x with
  | some m =>
    have hb : Before (days ++ [(day, some m)]) day day m :=
      ⟨by simp, le_refl day, fun _ _ _ hle => hle⟩
    have hself : interpolated day m day = m := by simp [interpolated]
    have hfilled := PassOne.filled hb fun e x _ hj hlt => absurd hj (not_le.mpr hlt)
    rwa [hself] at hfilled
  | none =>
    have hknown {k : ℤ} {m : ℚ} (hk : (k, some m) ∈ days ++ [(day, none)]) :
        (k, some m) ∈ days := by
      simpa using hk
    rcases List.eq_nil_or_concat' acc with rfl | ⟨acc, ⟨prev, value⟩, rfl⟩
    · obtain rfl : days = [] := by simpa using hfst.symm
      exact .blank fun k m hk => by simp at hk
    · -- every earlier day is at most the last one
      have hprev : ∀ p ∈ days, p.1 ≤ prev := by
        intro p hp
        have hmem : p.1 ∈ (acc ++ [(prev, value)]).map Prod.fst := by
          rw [hfst]
          exact List.mem_map_of_mem hp
        rw [List.map_append, List.mem_append] at hmem
        rcases hmem with hmem | hmem
        · obtain ⟨q, hq, hqp⟩ := List.mem_map.mp hmem
          have hlt := (List.pairwise_append.mp horder).2.2 q hq (prev, value) (by simp)
          rw [← hqp]
          exact hlt.le
        · rw [List.mem_singleton.mp hmem]
      have hprevMem : ∃ y, (prev, y) ∈ days := by
        have hmem : prev ∈ days.map Prod.fst := by
          rw [← hfst]
          simp
        obtain ⟨⟨_, y⟩, hy, rfl⟩ := List.mem_map.mp hmem
        exact ⟨y, hy⟩
      obtain ⟨y, hy⟩ := hprevMem
      have hbefore {j : ℤ} {m : ℚ} (hb : Before days prev j m) :
          Before (days ++ [(day, none)]) day j m :=
        ⟨by simp [hb.mem], hb.le.trans (hlater _ hy).le,
          fun k m' hk _ => hb.nearest k m' (hknown hk) (hprev _ (hknown hk))⟩
      rw [passOneValue, List.getLast?_concat]
      dsimp only
      have hvalue : PassOne days prev value := hacc (prev, value) (by simp)
      cases hvalue with
      | @filled j m hb hfree =>
        split_ifs with hvalue
        · exact .stuck (hbefore hb) (List.mem_append_left _ hy) hb.le (hlater _ hy) hvalue
        · have hline : interpolated j m prev + (day - prev) * factor = interpolated j m day := by
            simp only [interpolated]
            ring
          rw [hline]
          refine .filled (hbefore hb) fun e x he hj hlt => ?_
          have hmem :=
            mem_concat_of_le he (show e ≤ day - 1 by omega) (show day - 1 < day by omega)
          rcases (hprev _ hmem).lt_or_eq with hlt | heq
          · exact hfree e x hmem hj hlt
          · obtain rfl : e = prev := heq
            exact hvalue
      | stuck hb he hj hlt heq =>
        rw [if_pos rfl]
        exact .stuck (hbefore hb) (List.mem_append_left _ he) hj (hlt.trans (hlater _ hy)) heq
      | blank hnone =>
        rw [if_pos rfl]
        refine .blank fun k m hk => ?_
        have h₁ := hnone k m (hknown hk)
        have h₂ := hprev _ (hknown hk)
        omega

theorem InOrder.of_map_fst {α β : Type*} {l : List (ℤ × α)} {l' : List (ℤ × β)}
    (h : InOrder l) (heq : l'.map Prod.fst = l.map Prod.fst) : InOrder l' := by
  rw [InOrder, ← List.pairwise_map (f := Prod.fst) (R := (· < ·))] at h ⊢
  rwa [heq]

theorem passOne_mem {days : List (ℤ × Option ℚ)} (horder : InOrder days) :
    ∀ p ∈ passOne days, PassOne days p.1 p.2 := by
  induction days using List.reverseRecOn with
  | nil => simp [passOne]
  | append_singleton days q ih =>
    obtain ⟨hinit, -, hlast⟩ := List.pairwise_append.mp horder
    have hlater : ∀ p ∈ days, p.1 < q.1 := fun p hp => hlast p hp q (by simp)
    have hfst := map_fst_passOne days
    rw [passOne_concat]
    intro p hp
    rcases List.mem_append.mp hp with hp | hp
    · have hmem : p.1 ∈ days.map Prod.fst := hfst ▸ List.mem_map_of_mem hp
      obtain ⟨r, hr, hrp⟩ := List.mem_map.mp hmem
      exact (ih hinit p hp).concat (hrp ▸ hlater r hr)
    · rw [List.mem_singleton.mp hp]
      exact PassOne.next hfst (InOrder.of_map_fst hinit hfst) (ih hinit) hlater q.2

/-! ## The second pass -/

theorem passTwo_cons_cons (x y : ℤ × ℚ) (l : List (ℤ × ℚ)) :
    ∃ y' l', passTwo (y :: l) = y' :: l' ∧ y'.1 = y.1 ∧
      passTwo (x :: y :: l) =
        (if x.2 = -1 then (x.1, y'.2 + (x.1 - y'.1) * factor) else x) :: y' :: l' := by
  have hcons : ∃ y' l', passTwo (y :: l) = y' :: l' ∧ y'.1 = y.1 := by
    rw [passTwo, List.foldr_cons]
    rcases List.foldr passTwoStep [] l with _ | ⟨z, l'⟩
    · exact ⟨y, [], rfl, rfl⟩
    · refine ⟨_, z :: l', rfl, ?_⟩
      split <;> rfl
  obtain ⟨y', l', hl, hy⟩ := hcons
  refine ⟨y', l', hl, hy, ?_⟩
  have hstep : passTwo (x :: y :: l) = passTwoStep x (passTwo (y :: l)) := rfl
  rw [hstep, hl]
  rfl

theorem map_fst_passTwo (l : List (ℤ × ℚ)) : (passTwo l).map Prod.fst = l.map Prod.fst := by
  induction l with
  | nil => rfl
  | cons x l ih =>
    cases l with
    | nil => rfl
    | cons y l =>
      obtain ⟨y', l', hl, -, hx⟩ := passTwo_cons_cons x y l
      rw [hx, ← hl, List.map_cons, ih, List.map_cons]
      split <;> rfl

/-- The tail of the list is filled as if it stood alone. -/
theorem mem_passTwo_cons {x p : ℤ × ℚ} {l : List (ℤ × ℚ)} (h : p ∈ passTwo l) :
    p ∈ passTwo (x :: l) := by
  cases l with
  | nil => simp [passTwo] at h
  | cons y l =>
    obtain ⟨y', l', hl, -, hx⟩ := passTwo_cons_cons x y l
    rw [hx, ← hl]
    exact List.mem_cons_of_mem _ h

/-- A day that has a value keeps it. -/
theorem mem_passTwo_of_ne {p : ℤ × ℚ} {l : List (ℤ × ℚ)} (hp : p ∈ l)
    (hne : p.2 ≠ -1) : p ∈ passTwo l := by
  induction l with
  | nil => simp at hp
  | cons x l ih =>
    rcases List.mem_cons.mp hp with rfl | hp
    · cases l with
      | nil => simp [passTwo, passTwoStep]
      | cons y l =>
        obtain ⟨y', l', -, -, hx⟩ := passTwo_cons_cons p y l
        rw [hx, if_neg hne]
        exact List.mem_cons_self
    · exact mem_passTwo_cons (ih hp)

/-- The last day keeps its value. -/
theorem mem_passTwo_last {p : ℤ × ℚ} {l : List (ℤ × ℚ)} (horder : InOrder l)
    (hp : p ∈ l) (hlast : ∀ q ∈ l, q.1 ≤ p.1) : p ∈ passTwo l := by
  induction l with
  | nil => simp at hp
  | cons x l ih =>
    obtain ⟨hfirst, horder⟩ := List.pairwise_cons.mp horder
    rcases List.mem_cons.mp hp with rfl | hp
    · cases l with
      | nil => simp [passTwo, passTwoStep]
      | cons y l =>
        have h₁ := hfirst y (by simp)
        have h₂ := hlast y (by simp)
        omega
    · exact mem_passTwo_cons (ih horder hp fun q hq => hlast q (List.mem_cons_of_mem _ hq))

theorem InOrder.eq_of_fst {α : Type*} {l : List (ℤ × α)} (h : InOrder l) {d : ℤ} {a b : α}
    (ha : (d, a) ∈ l) (hb : (d, b) ∈ l) : a = b := by
  by_contra hne
  have heither : l.Pairwise fun p q => p.1 < q.1 ∨ q.1 < p.1 := h.imp .inl
  have : Std.Symm fun p q : ℤ × α => p.1 < q.1 ∨ q.1 < p.1 := ⟨fun _ _ => Or.symm⟩
  rcases heither.forall ha hb (by simpa using hne) with hlt | hlt <;> exact absurd hlt (lt_irrefl _)

/-- Days without a value are filled from the first later day that has one. -/
theorem mem_passTwo_filled {l : List (ℤ × ℚ)} (horder : InOrder l) {d j : ℤ} {b : ℚ}
    (hd : (d, -1) ∈ l) (hj : (j, b) ∈ passTwo l) (hlt : d < j)
    (hblank : ∀ p ∈ l, d ≤ p.1 → p.1 < j → p.2 = -1) :
    (d, interpolated j b d) ∈ passTwo l := by
  induction l generalizing d with
  | nil => simp at hd
  | cons x l ih =>
    obtain ⟨hfirst, htail⟩ := List.pairwise_cons.mp horder
    have hblank' : ∀ p ∈ l, d ≤ p.1 → p.1 < j → p.2 = -1 :=
      fun p hp => hblank p (List.mem_cons_of_mem _ hp)
    cases l with
    | nil =>
      obtain rfl := List.mem_singleton.mp hd
      have hone : (j, b) = (d, -1) := by simpa [passTwo, passTwoStep] using hj
      injection hone
      omega
    | cons y l =>
      obtain ⟨y', l', hl, hy, hx⟩ := passTwo_cons_cons x y l
      have hjtail (hxd : x.1 < j) : (j, b) ∈ passTwo (y :: l) := by
        rw [hx, ← hl] at hj
        rcases List.mem_cons.mp hj with hj | hj
        · have hfst : j = x.1 := by
            rw [show j = (j, b).1 from rfl, hj]
            split <;> rfl
          omega
        · exact hj
      rcases List.mem_cons.mp hd with rfl | hd
      · have hjtail := hjtail hlt
        have hdy := hfirst y (by simp)
        -- the next day is either the one with a value or filled from it
        have hnext : (y.1, interpolated j b y.1) ∈ passTwo (y :: l) := by
          have hyj : y.1 ≤ j := by
            have hmem : j ∈ (y :: l).map Prod.fst := by
              rw [← map_fst_passTwo]
              exact List.mem_map_of_mem hjtail
            obtain ⟨q, hq, rfl⟩ := List.mem_map.mp hmem
            rcases List.mem_cons.mp hq with rfl | hq
            · exact le_refl _
            · exact ((List.pairwise_cons.mp htail).1 q hq).le
          rcases hyj.lt_or_eq with hyj | hyj
          · have hyblank : y = (y.1, -1) := Prod.ext rfl (hblank' y (by simp) hdy.le hyj)
            refine ih htail ?_ hjtail hyj fun p hp hle => hblank' p hp (hdy.le.trans hle)
            rw [← hyblank]
            simp
          · rw [hyj]
            simpa [interpolated] using hjtail
        have hhead : (y.1, y'.2) ∈ passTwo (y :: l) := by
          rw [hl, ← hy]
          simp
        have hval := (InOrder.of_map_fst htail (map_fst_passTwo _)).eq_of_fst hhead hnext
        rw [hx, if_pos rfl, hval, hy]
        have hline : interpolated j b y.1 + (d - y.1) * factor = interpolated j b d := by
          simp only [interpolated]
          ring
        rw [hline]
        exact List.mem_cons_self
      · exact mem_passTwo_cons (ih htail hd (hjtail ((hfirst _ hd).trans hlt)) hlt hblank')

/-! ## The nearest days with samples -/

/-- The offset a day should get: the median of its own samples, or the one of the nearest earlier
day that has samples, or else of the nearest later one, changed by 1.3 for each day in between. -/
inductive ExpectedOffset (days : List (ℤ × Option ℚ)) (day : ℤ) : ℚ → Prop
  | own {m : ℚ} : (day, some m) ∈ days → ExpectedOffset days day m
  | earlier {j : ℤ} {m : ℚ} : (∀ m, (day, some m) ∉ days) → Before days day j m →
      ExpectedOffset days day (interpolated j m day)
  | later {j : ℤ} {m : ℚ} : (∀ k m, (k, some m) ∈ days → day < k) →
      After days day j m → ExpectedOffset days day (interpolated j m day)

section

variable {days : List (ℤ × Option ℚ)}

theorem Before.unique (horder : InOrder days) {d j j' : ℤ} {m m' : ℚ} (h : Before days d j m)
    (h' : Before days d j' m') : j = j' ∧ m = m' := by
  obtain rfl : j = j' := le_antisymm (h'.nearest j m h.mem h.le) (h.nearest j' m' h'.mem h'.le)
  exact ⟨rfl, Option.some.inj (horder.eq_of_fst h.mem h'.mem)⟩

theorem After.unique (horder : InOrder days) {d j j' : ℤ} {m m' : ℚ} (h : After days d j m)
    (h' : After days d j' m') : j = j' ∧ m = m' := by
  obtain rfl : j = j' := le_antisymm (h.nearest j' m' h'.mem h'.lt) (h'.nearest j m h.mem h.lt)
  exact ⟨rfl, Option.some.inj (horder.eq_of_fst h.mem h'.mem)⟩

theorem Before.self {d : ℤ} {m : ℚ} (h : (d, some m) ∈ days) : Before days d d m :=
  ⟨h, le_refl d, fun _ _ _ hle => hle⟩

theorem interpolated_self (j : ℤ) (m : ℚ) : interpolated j m j = m := by simp [interpolated]

theorem interpolated_trans (j e d : ℤ) (m : ℚ) :
    interpolated e (interpolated j m e) d = interpolated j m d := by
  simp only [interpolated]
  ring

theorem Before.expected {d j : ℤ} {m : ℚ} (h : Before days d j m) :
    ExpectedOffset days d (interpolated j m d) := by
  by_cases hown : ∃ m', (d, some m') ∈ days
  · obtain ⟨m', hm'⟩ := hown
    obtain rfl : j = d := le_antisymm h.le (h.nearest d m' hm' (le_refl d))
    rw [interpolated_self]
    exact .own h.mem
  · exact .earlier (fun m' hm' => hown ⟨m', hm'⟩) h

theorem ExpectedOffset.eq_of_before (horder : InOrder days) {d j : ℤ} {m v : ℚ}
    (h : ExpectedOffset days d v) (hb : Before days d j m) : v = interpolated j m d := by
  cases h with
  | own hown =>
    obtain ⟨rfl, rfl⟩ := hb.unique horder (Before.self hown)
    rw [interpolated_self]
  | earlier _ hb' =>
    obtain ⟨rfl, rfl⟩ := hb.unique horder hb'
    rfl
  | later hnone _ => exact absurd hb.le (not_le.mpr (hnone j m hb.mem))

theorem ExpectedOffset.eq_of_after (horder : InOrder days) {d j : ℤ} {m v : ℚ}
    (h : ExpectedOffset days d v) (hnone : ∀ k m, (k, some m) ∈ days → d < k)
    (ha : After days d j m) : v = interpolated j m d := by
  cases h with
  | own hown => exact absurd (hnone d v hown) (lt_irrefl d)
  | earlier _ hb =>
    have h₁ := hnone _ _ hb.mem
    have h₂ := hb.le
    omega
  | later _ ha' =>
    obtain ⟨rfl, rfl⟩ := ha.unique horder ha'
    rfl

theorem exists_after (horder : InOrder days) {d k : ℤ} {m : ℚ} (hk : (k, some m) ∈ days)
    (hlt : d < k) : ∃ j m, After days d j m := by
  have hfind : (days.find? fun p => decide (d < p.1) && p.2.isSome).isSome := by
    rw [List.find?_isSome]
    exact ⟨(k, some m), hk, by simpa using hlt⟩
  obtain ⟨⟨j, x⟩, hj⟩ := Option.isSome_iff_exists.mp hfind
  obtain ⟨hp, as, bs, rfl, has⟩ := List.find?_eq_some_iff_append.mp hj
  obtain ⟨hdj, hx⟩ : d < j ∧ x.isSome = true := by simpa using hp
  obtain ⟨m', rfl⟩ := Option.isSome_iff_exists.mp hx
  refine ⟨j, m', by simp, hdj, fun k m'' hk hlt => ?_⟩
  rcases List.mem_append.mp hk with hk | hk
  · have hnot := has _ hk
    simp [hlt] at hnot
  · rcases List.mem_cons.mp hk with heq | hk
    · injection heq with heq
      exact heq.ge
    · exact ((List.pairwise_cons.mp (List.pairwise_append.mp horder).2.1).1 _ hk).le

/-! ## Days at `-1` -/

/-- A day whose offset is `-1`. -/
structure AtBlank (days : List (ℤ × Option ℚ)) (d j : ℤ) (m : ℚ) : Prop where
  before : Before days d j m
  value : interpolated j m d = -1

/-- Each day whose offset is `-1` is the last one, or the days that follow it up to the next one
with samples, and those before it if it is the first one with samples, would get the same values
from that day. -/
def BlanksHarmless (days : List (ℤ × Option ℚ)) : Prop :=
  ∀ d x j m, (d, x) ∈ days → AtBlank days d j m →
    (∀ q ∈ days, q.1 ≤ d) ∨
    ∃ j' m', After days d j' m' ∧
      ∀ q ∈ days, q.1 < j' → (d ≤ q.1 ∨ ∀ k m, (k, some m) ∈ days → d ≤ k) →
        ⌊interpolated j' m' q.1⌋ = ⌊interpolated d (-1) q.1⌋

theorem exists_mem_passOne {d : ℤ} {x : Option ℚ} (h : (d, x) ∈ days) :
    ∃ a, (d, a) ∈ passOne days := by
  have hmem : d ∈ (passOne days).map Prod.fst := by
    rw [map_fst_passOne]
    exact List.mem_map_of_mem h
  obtain ⟨⟨_, a⟩, ha, rfl⟩ := List.mem_map.mp hmem
  exact ⟨a, ha⟩

theorem mem_passOne_of_sample (horder : InOrder days) {d : ℤ} {m : ℚ}
    (h : (d, some m) ∈ days) : (d, m) ∈ passOne days := by
  obtain ⟨a, ha⟩ := exists_mem_passOne h
  have hself := Before.self h
  have hpass : PassOne days d a := passOne_mem horder _ ha
  cases hpass with
  | filled hb _ =>
    obtain ⟨rfl, rfl⟩ := hself.unique horder hb
    rwa [interpolated_self] at ha
  | stuck hb _ hj hlt _ =>
    obtain ⟨rfl, rfl⟩ := hself.unique horder hb
    omega
  | blank hnone => exact absurd (hnone d m h) (lt_irrefl d)

theorem mem_passTwo_passOne_last (horder : InOrder days) {d : ℤ} {a : ℚ}
    (h : (d, a) ∈ passOne days) (hlast : ∀ q ∈ days, q.1 ≤ d) :
    (d, a) ∈ passTwo (passOne days) := by
  refine mem_passTwo_last (InOrder.of_map_fst horder (map_fst_passOne days)) h fun q hq => ?_
  have hmem : q.1 ∈ days.map Prod.fst := by
    rw [← map_fst_passOne]
    exact List.mem_map_of_mem hq
  obtain ⟨r, hr, hrq⟩ := List.mem_map.mp hmem
  rw [← hrq]
  exact hlast r hr

/-- From a day at `-1` up to the next day with samples, no day has a value. -/
theorem AtBlank.passOne_eq (horder : InOrder days) {d j e : ℤ} {m a : ℚ} {x : Option ℚ}
    (h : AtBlank days d j m) (hd : (d, x) ∈ days) (hb : Before days e j m) (hle : d ≤ e)
    (ha : (e, a) ∈ passOne days) : a = -1 := by
  have hpass : PassOne days e a := passOne_mem horder _ ha
  cases hpass with
  | filled hb' hfree =>
    obtain ⟨rfl, rfl⟩ := hb.unique horder hb'
    rcases hle.lt_or_eq with hlt | rfl
    · exact absurd h.value (hfree d x hd h.before.le hlt)
    · exact h.value
  | stuck _ _ _ _ _ => rfl
  | blank _ => rfl

/-- Before the first day with samples no day has a value. -/
theorem passOne_eq_of_none (horder : InOrder days) {d : ℤ} {a : ℚ}
    (hnone : ∀ k m, (k, some m) ∈ days → d < k) (ha : (d, a) ∈ passOne days) : a = -1 := by
  have hpass : PassOne days d a := passOne_mem horder _ ha
  cases hpass with
  | filled hb _ => exact absurd hb.le (not_le.mpr (hnone _ _ hb.mem))
  | stuck _ _ _ _ _ => rfl
  | blank _ => rfl

/-- Between a day and the next one with samples, the day with samples before stays the same. -/
theorem Before.until {d e j j' : ℤ} {m m' : ℚ} (h : Before days d j m) (ha : After days d j' m')
    (hle : d ≤ e) (hlt : e < j') : Before days e j m := by
  refine ⟨h.mem, h.le.trans hle, fun k m'' hk hke => ?_⟩
  by_contra hjk
  have hdk : d < k := by
    by_contra hkd
    exact hjk (h.nearest k m'' hk (not_lt.mp hkd))
  have := ha.nearest k m'' hk hdk
  omega

/-- The days that a day at `-1` leaves without a value: those up to the next one with samples, and
those before it if none of them has samples. -/
def LeftBlank (days : List (ℤ × Option ℚ)) (d e : ℤ) : Prop :=
  d ≤ e ∨ ∀ k m, (k, some m) ∈ days → d ≤ k

namespace AtBlank

variable {d j j' e : ℤ} {m m' b v : ℚ} {x y : Option ℚ}

/-- They are all filled from that day. -/
theorem filled (horder : InOrder days) (h : AtBlank days d j m) (hd : (d, x) ∈ days)
    (ha : After days d j' m') (hj' : (j', b) ∈ passTwo (passOne days)) (he : (e, y) ∈ days)
    (hlt : e < j') (hleft : LeftBlank days d e) :
    (e, interpolated j' b e) ∈ passTwo (passOne days) := by
  have hblank : ∀ p ∈ passOne days, e ≤ p.1 → p.1 < j' → p.2 = -1 := by
    intro p hp hle hlt
    by_cases hdp : d ≤ p.1
    · exact h.passOne_eq horder hd (h.before.until ha hdp hlt) hdp hp
    · refine passOne_eq_of_none horder (fun k m hk => ?_) hp
      rcases hleft with hde | hfirst
      · omega
      · have := hfirst k m hk
        omega
  obtain ⟨a, ha'⟩ := exists_mem_passOne he
  obtain rfl : a = -1 := hblank _ ha' (le_refl e) hlt
  exact mem_passTwo_filled (InOrder.of_map_fst horder (map_fst_passOne days)) ha' hj' hlt hblank

/-- What they should get, told from the day at `-1`. -/
theorem expected (horder : InOrder days) (h : AtBlank days d j m) (ha : After days d j' m')
    (hlt : e < j') (hleft : LeftBlank days d e) :
    ExpectedOffset days e (interpolated d (-1) e) ∧
      ∀ v, ExpectedOffset days e v → v = interpolated d (-1) e := by
  by_cases hde : d ≤ e
  · have hb := h.before.until ha hde hlt
    have hline : interpolated j m e = interpolated d (-1) e := by
      rw [← h.value, interpolated_trans]
    exact ⟨hline ▸ hb.expected, fun v hv => hline ▸ hv.eq_of_before horder hb⟩
  · have hfirst := hleft.resolve_left hde
    obtain rfl : j = d := le_antisymm h.before.le (hfirst j m h.before.mem)
    have hm : m = -1 := by rw [← h.value, interpolated_self]
    have hnone : ∀ k m, (k, some m) ∈ days → e < k := fun k m hk => by
      have := hfirst k m hk
      omega
    have hafter : After days e j (-1) :=
      ⟨hm ▸ h.before.mem, by omega, fun k m' hk _ => hfirst k m' hk⟩
    exact ⟨.later hnone hafter, fun v hv => hv.eq_of_after horder hnone hafter⟩

end AtBlank

theorem factor_mul_lt {d e : ℤ} (h : d < e) : (d - e) * factor ≤ -(13 / 10) := by
  have hcast : (d : ℚ) + 1 ≤ e := by exact_mod_cast h
  rw [factor]
  linarith

/-- The value of the second pass has the right floor. -/
def FloorsRight (days : List (ℤ × Option ℚ)) : Prop :=
  ∀ p ∈ passTwo (passOne days), ∃ v, ExpectedOffset days p.1 v ∧ ⌊p.2⌋ = ⌊v⌋

theorem FloorsRight.blanksHarmless (horder : InOrder days) (h : FloorsRight days) :
    BlanksHarmless days := by
  intro d x j m hd hblank
  refine or_iff_not_imp_left.mpr fun hlast => ?_
  obtain ⟨q, hq, hdq⟩ : ∃ q ∈ days, d < q.1 := by
    simpa only [not_forall, not_le, exists_prop] using hlast
  have hfst := map_fst_passOne days
  have hPorder := InOrder.of_map_fst horder hfst
  -- the floor of what a day at -1 gets is -1
  have hfloor {b : ℚ} (hb : (d, b) ∈ passTwo (passOne days)) : -1 ≤ b := by
    obtain ⟨v, hv, heq⟩ := h _ hb
    rw [hv.eq_of_before horder hblank.before, hblank.value, Int.floor_neg, Int.ceil_one] at heq
    have := Int.floor_le b
    rw [heq] at this
    exact_mod_cast this
  obtain ⟨j', m', hafter⟩ : ∃ j' m', After days d j' m' := by
    by_contra hnone
    -- all later days keep -1, and the last one passes it on
    have hlater {e : ℤ} (hle : d ≤ e) : Before days e j m := by
      refine ⟨hblank.before.mem, hblank.before.le.trans hle, fun k m' hk _ => ?_⟩
      by_contra hjk
      by_cases hdk : d < k
      · exact hnone (exists_after horder hk hdk)
      · exact hjk (hblank.before.nearest k m' hk (not_lt.mp hdk))
    obtain ⟨init, ⟨l, a⟩, hinit⟩ :=
      (List.eq_nil_or_concat' (passOne days)).resolve_left fun hnil => by
        obtain ⟨a, ha⟩ := exists_mem_passOne hd
        simp [hnil] at ha
    have hmax : ∀ p ∈ passOne days, p.1 ≤ l := by
      intro p hp
      rw [hinit] at hp hPorder
      rcases List.mem_append.mp hp with hp | hp
      · exact ((List.pairwise_append.mp hPorder).2.2 p hp (l, a) (by simp)).le
      · rw [List.mem_singleton.mp hp]
    have hdl : d < l := by
      obtain ⟨b, hb⟩ := exists_mem_passOne hq
      exact hdq.trans_le (hmax _ hb)
    have hvalue : ∀ p ∈ passOne days, d ≤ p.1 → p.2 = -1 := fun p hp hle =>
      hblank.passOne_eq horder hd (hlater hle) hle hp
    have hl : (l, a) ∈ passOne days := by simp [hinit]
    obtain rfl : a = -1 := hvalue _ hl hdl.le
    obtain ⟨c, hc⟩ := exists_mem_passOne hd
    obtain rfl : c = -1 := hvalue _ hc (le_refl d)
    have hfilled := mem_passTwo_filled hPorder hc (mem_passTwo_last hPorder hl hmax) hdl
      fun p hp hle _ => hvalue p hp hle
    have h₁ := hfloor hfilled
    have h₂ := factor_mul_lt hdl
    rw [interpolated] at h₁
    linarith
  refine ⟨j', m', hafter, ?_⟩
  have hdj := factor_mul_lt hafter.lt
  have hm' : m' ≠ -1 := by
    rintro rfl
    -- the next day is at -1 too: what it passes on is too small
    have hmem : j' ∈ (passTwo (passOne days)).map Prod.fst := by
      rw [map_fst_passTwo, hfst]
      exact List.mem_map_of_mem hafter.mem
    obtain ⟨⟨_, b⟩, hb, rfl⟩ := List.mem_map.mp hmem
    obtain ⟨v, hv, heq⟩ := h _ hb
    rw [hv.eq_of_before horder (Before.self hafter.mem), interpolated_self, Int.floor_neg,
      Int.ceil_one] at heq
    have h₁ := Int.lt_floor_add_one b
    rw [heq] at h₁
    have h₂ := hfloor (hblank.filled horder hd hafter hb hd hafter.lt (.inl (le_refl d)))
    rw [interpolated] at h₂
    push_cast at h₁
    linarith
  have hmem := mem_passTwo_of_ne (mem_passOne_of_sample horder hafter.mem) hm'
  intro q hq hlt hleft
  obtain ⟨v, hv, heq⟩ := h _ (hblank.filled horder hd hafter hmem hq hlt hleft)
  rw [heq, (hblank.expected horder hafter hlt hleft).2 v hv]

theorem BlanksHarmless.floorsRight (horder : InOrder days) (hsome : ∃ d m, (d, some m) ∈ days)
    (h : BlanksHarmless days) : FloorsRight days := by
  have hPorder := InOrder.of_map_fst horder (map_fst_passOne days)
  have hForder := InOrder.of_map_fst hPorder (map_fst_passTwo (passOne days))
  -- what follows for a day that is left without a value by a day at -1
  have hleftBlank {d j e : ℤ} {m b : ℚ} {x y : Option ℚ} (hblank : AtBlank days d j m)
      (hd : (d, x) ∈ days) (he : (e, y) ∈ days) (hb : (e, b) ∈ passTwo (passOne days))
      (hafter : ∃ j' m', After days d j' m' ∧
        ∀ q ∈ days, q.1 < j' → LeftBlank days d q.1 →
          ⌊interpolated j' m' q.1⌋ = ⌊interpolated d (-1) q.1⌋)
      (hlt : ∀ j' m', After days d j' m' → e < j') (hleft : LeftBlank days d e) :
      ∃ v, ExpectedOffset days e v ∧ ⌊b⌋ = ⌊v⌋ := by
    obtain ⟨j', m', ha, hfloors⟩ := hafter
    have hm' : m' ≠ -1 := by
      rintro rfl
      have hself := hfloors _ hd ha.lt (.inl (le_refl d))
      rw [interpolated_self, Int.floor_neg, Int.ceil_one] at hself
      have h₁ := Int.floor_le (interpolated j' (-1) d)
      rw [hself, interpolated] at h₁
      have h₂ := factor_mul_lt ha.lt
      push_cast at h₁
      linarith
    have hmem := mem_passTwo_of_ne (mem_passOne_of_sample horder ha.mem) hm'
    have hfilled := hblank.filled horder hd ha hmem he (hlt _ _ ha) hleft
    rw [hForder.eq_of_fst hb hfilled]
    exact ⟨_, (hblank.expected horder ha (hlt _ _ ha) hleft).1, hfloors _ he (hlt _ _ ha) hleft⟩
  rintro ⟨e, b⟩ hb
  obtain ⟨y, he⟩ : ∃ y, (e, y) ∈ days := by
    have hmem : e ∈ days.map Prod.fst := by
      rw [← map_fst_passOne, ← map_fst_passTwo]
      exact List.mem_map_of_mem hb
    obtain ⟨⟨_, y⟩, hy, rfl⟩ := List.mem_map.mp hmem
    exact ⟨y, hy⟩
  obtain ⟨a, ha⟩ := exists_mem_passOne he
  have hpass : PassOne days e a := passOne_mem horder _ ha
  -- a day at -1 from which the day is filled
  have hfrom {d j : ℤ} {m : ℚ} {x : Option ℚ} (hbe : Before days e j m) (hd : (d, x) ∈ days)
      (hjd : j ≤ d) (hde : d ≤ e) (hvalue : interpolated j m d = -1)
        (ha : (e, -1) ∈ passOne days) :
      ∃ v, ExpectedOffset days e v ∧ ⌊b⌋ = ⌊v⌋ := by
    have hblank : AtBlank days d j m :=
      ⟨⟨hbe.mem, hjd, fun k m' hk hle => hbe.nearest k m' hk (hle.trans hde)⟩, hvalue⟩
    rcases h d x j m hd hblank with hlast | hafter
    · obtain rfl : d = e := le_antisymm hde (hlast _ he)
      have hkeep := mem_passTwo_passOne_last horder ha hlast
      refine ⟨_, hbe.expected, ?_⟩
      rw [hForder.eq_of_fst hb hkeep, hvalue]
    · refine hleftBlank hblank hd he hb hafter (fun j' m' ha' => ?_) (.inl hde)
      by_contra hle
      have h₁ := hbe.nearest j' m' ha'.mem (not_lt.mp hle)
      have h₂ := ha'.lt
      omega
  cases hpass with
  | @filled j m hbe _ =>
    by_cases hvalue : interpolated j m e = -1
    · exact hfrom hbe he hbe.le (le_refl e) hvalue (hvalue ▸ ha)
    · refine ⟨_, hbe.expected, ?_⟩
      rw [hForder.eq_of_fst hb (mem_passTwo_of_ne ha hvalue)]
  | stuck hbe hd hjd hlt hvalue => exact hfrom hbe hd hjd hlt.le hvalue ha
  | blank hnone =>
    obtain ⟨k, mk, hk⟩ := hsome
    obtain ⟨f, m, hf⟩ := exists_after horder hk (hnone k mk hk)
    have hfirst : ∀ k m', (k, some m') ∈ days → f ≤ k :=
      fun k m' hk => hf.nearest k m' hk (hnone k m' hk)
    have hexpected := ExpectedOffset.later hnone hf
    -- the value of the first day with samples is passed on
    have hpassed {c : ℚ} (hc : (f, c) ∈ passTwo (passOne days)) : b = interpolated f c e := by
      refine hForder.eq_of_fst hb (mem_passTwo_filled hPorder ha hc hf.lt fun p hp _ hlt => ?_)
      exact passOne_eq_of_none horder (fun k m' hk => hlt.trans_le (hfirst k m' hk)) hp
    by_cases hm : m = -1
    · have hblank : AtBlank days f f m := ⟨Before.self hf.mem, by rw [interpolated_self, hm]⟩
      rcases h f _ f m hf.mem hblank with hlast | hafter
      · have hkeep := mem_passTwo_passOne_last horder (mem_passOne_of_sample horder hf.mem) hlast
        exact ⟨_, hexpected, by rw [hpassed hkeep]⟩
      · exact hleftBlank hblank hf.mem he hb hafter (fun _ _ ha' => hf.lt.trans ha'.lt)
          (.inr hfirst)
    · have hkeep := mem_passTwo_of_ne (mem_passOne_of_sample horder hf.mem) hm
      exact ⟨_, hexpected, by rw [hpassed hkeep]⟩

end

/-! ## The days of a dictionary -/

section

variable (median : List ℚ → ℚ)

theorem DayDict.inOrder_medians (dict : DayDict) : InOrder (dict.medians median) := by
  have hperm := (sortBy_perm DayEntry.day dict.entries).map DayEntry.day
  have hnodup : ((sortBy DayEntry.day dict.entries).map DayEntry.day).Nodup :=
    hperm.nodup_iff.mpr dict.nodup
  have hne := List.pairwise_map.mp hnodup
  rw [InOrder, medians, List.pairwise_map]
  exact ((sortBy_pairwise DayEntry.day dict.entries).and hne).imp fun h => lt_of_le_of_ne h.1 h.2

/-- Every day has one offset, the floor of what it should be. -/
structure DayOffsetsRight (dict : DayDict) : Prop where
  days : (averagingOffsetForEachDay median dict).map Prod.fst = (dict.medians median).map Prod.fst
  floors : ∀ p ∈ averagingOffsetForEachDay median dict, ∃ v,
    ExpectedOffset (dict.medians median) p.1 v ∧ p.2 = ⌊v⌋

/-- If some day has samples, the offsets are right exactly if the days whose offset is `-1` do no
harm. -/
theorem day_offsets_right_iff (dict : DayDict)
    (hsome : ∃ d m, (d, some m) ∈ dict.medians median) :
    DayOffsetsRight median dict ↔ BlanksHarmless (dict.medians median) := by
  have horder := dict.inOrder_medians median
  have hdays : (averagingOffsetForEachDay median dict).map Prod.fst =
      (dict.medians median).map Prod.fst := by
    rw [averagingOffsetForEachDay, List.map_map, foldl_passOneStep,
      ← map_fst_passOne (dict.medians median), ← map_fst_passTwo]
    rfl
  have hfloors : (∀ p ∈ averagingOffsetForEachDay median dict,
      ∃ v, ExpectedOffset (dict.medians median) p.1 v ∧ p.2 = ⌊v⌋) ↔
        FloorsRight (dict.medians median) := by
    rw [averagingOffsetForEachDay, foldl_passOneStep, List.forall_mem_map]
    rfl
  constructor
  · rintro ⟨-, h⟩
    exact (hfloors.mp h).blanksHarmless horder
  · intro h
    exact ⟨hdays, hfloors.mpr (h.floorsRight horder hsome)⟩

end

/-- The middle of a list of numbers, or the mean of the two in the middle. -/
def middle (l : List ℚ) : ℚ :=
  let sorted := sortBy id l
  if l.length % 2 = 1 then sorted.getD (l.length / 2) 0
  else (sorted.getD (l.length / 2 - 1) 0 + sorted.getD (l.length / 2) 0) / 2

/-- A day with the sample 5, and a day without samples two days later. -/
def fiveThenNone : DayDict where
  entries := [⟨2, [⟨[], 200, 210, none⟩]⟩,
    ⟨0, [⟨[], 0, 10, none⟩, ⟨[], 20, 30, some 5⟩]⟩]
  nodup := by decide
  nonempty := by decide

theorem day_offsets_right_five : DayOffsetsRight middle fiveThenNone := by
  have hmedians : fiveThenNone.medians middle = [(0, some 5), (2, none)] := by decide +kernel
  refine (day_offsets_right_iff middle fiveThenNone ⟨0, 5, by simp [hmedians]⟩).mpr ?_
  rw [hmedians]
  rintro d x j m hd ⟨⟨hj, hle, -⟩, hvalue⟩
  obtain ⟨rfl, rfl⟩ : j = 0 ∧ m = 5 := by simpa using hj
  have hd' : (0 : ℚ) ≤ d := by exact_mod_cast hle
  rw [interpolated, factor] at hvalue
  push_cast at hvalue
  linarith

/-- A day whose median is `-1`, and the day after it with the median 10. -/
def medianMinusOne : DayDict where
  entries := [⟨0, [⟨[], 0, 10, none⟩, ⟨[], 20, 30, some (-1)⟩]⟩,
    ⟨1, [⟨[], 0, 10, none⟩, ⟨[], 20, 30, some 10⟩]⟩]
  nodup := by decide
  nonempty := by decide

/-- The first day is taken for one without a value and is filled from the second one. -/
theorem median_minus_one_overwritten :
    averagingOffsetForEachDay middle medianMinusOne = [(0, 8), (1, 10)] ∧
      ¬DayOffsetsRight middle medianMinusOne := by
  have hresult : averagingOffsetForEachDay middle medianMinusOne = [(0, 8), (1, 10)] := by
    decide +kernel
  have hmedians : medianMinusOne.medians middle = [(0, some (-1)), (1, some 10)] := by
    decide +kernel
  refine ⟨hresult, ?_⟩
  rintro ⟨-, h⟩
  obtain ⟨v, hv, heq⟩ := h (0, 8) (by simp [hresult])
  have hself : Before (medianMinusOne.medians middle) 0 0 (-1) := Before.self (by simp [hmedians])
  rw [hv.eq_of_before (medianMinusOne.inOrder_medians middle) hself, interpolated_self,
    Int.floor_neg, Int.ceil_one] at heq
  omega

end CarFi.Analyzer

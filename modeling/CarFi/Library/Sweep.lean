import Mathlib.Data.List.TakeWhile
import Mathlib.Order.Basic
import Mathlib.Data.Finset.Basic

/-!
# Cursors over time-ordered lists

A cursor that only moves forward over a list sorted by time, and the quadratic join it
replaces. For an interval, the join looks at every element that no earlier interval used and
takes those with a time in the interval (`available`). The cursor skips the elements before
the interval and reads on. `Behind` is what relates the two: everything behind the cursor was
used or is too early for every later interval.
-/
namespace CarFi.Library

variable {α σ : Type*}

/-! ## Loops with an index -/

/-- `while i < len(xs) and p(xs[i]): body; i += 1` -/
def whileFrom (p : α → Bool) (body : σ → Nat → α → σ) (xs : List α) (i : Nat)
    (s : σ) : Nat × σ :=
  if h : i < xs.length then
    if p xs[i] then whileFrom p body xs (i + 1) (body s i xs[i]) else (i, s)
  else (i, s)
termination_by xs.length - i

/-- The loop runs over the longest run of the predicate after the index. -/
theorem whileFrom_eq (p : α → Bool) (body : σ → Nat → α → σ) (xs : List α)
    (i : Nat) (s : σ) : whileFrom p body xs i s = (i + ((xs.drop i).takeWhile p).length,
      (((xs.drop i).takeWhile p).zipIdx i).foldl (fun s x => body s x.2 x.1) s) := by
  induction hn : xs.length - i generalizing i s with
  | zero =>
    have hle : xs.length ≤ i := by omega
    rw [whileFrom, dif_neg (by omega)]
    simp [List.drop_of_length_le hle]
  | succ n ih =>
    have hlt : i < xs.length := by omega
    rw [whileFrom, dif_pos hlt, List.drop_eq_getElem_cons hlt]
    by_cases hp : p xs[i] = true
    · rw [if_pos hp, ih (i + 1) _ (by omega), List.takeWhile_cons_of_pos hp]
      simp [List.zipIdx_cons]
      omega
    · rw [if_neg hp, List.takeWhile_cons_of_neg hp]
      simp

theorem drop_length_takeWhile (p : α → Bool) (xs : List α) :
    xs.drop (xs.takeWhile p).length = xs.dropWhile p := by
  induction xs with
  | nil => rfl
  | cons a xs ih => by_cases h : p a = true <;> simp [h, ih]

theorem of_lt_length_takeWhile {p : α → Bool} {xs : List α} {k : Nat} {a : α}
    (ha : xs[k]? = some a) (hk : k < (xs.takeWhile p).length) : p a = true := by
  induction xs generalizing k with
  | nil => simp at ha
  | cons b xs ih =>
    by_cases hb : p b = true
    · cases k with
      | zero =>
        obtain rfl : b = a := by simpa using ha
        exact hb
      | succ k => exact ih (by simpa using ha) (by simpa [hb] using hk)
    · simp [hb] at hk

/-! ## The join -/

section Join

variable {τ : Type*} [LinearOrder τ] (time : α → τ)

/-- The elements with a time in the interval that were not used. -/
def available (xs : List α) (used : Finset Nat) (lo hi : τ) : List (α × Nat) :=
  xs.zipIdx.filter fun x => x.2 ∉ used ∧ lo ≤ time x.1 ∧ time x.1 ≤ hi

/-- Everything before the cursor was used or lies before `low`, and nothing after it was used. -/
structure Behind (xs : List α) (used : Finset Nat) (idx : Nat) (low : τ) : Prop where
  inside : idx ≤ xs.length
  fresh : ∀ i ∈ used, i < idx
  passed : ∀ i a, xs[i]? = some a → i < idx → i ∈ used ∨ time a < low

/-- The cursor after the elements before `lo`. -/
def skipped (xs : List α) (idx : Nat) (lo : τ) : Nat :=
  idx + ((xs.drop idx).takeWhile fun a => time a < lo).length

/-- The elements up to `hi` from the cursor on. -/
def taken (xs : List α) (idx : Nat) (hi : τ) : List α :=
  (xs.drop idx).takeWhile fun a => time a ≤ hi

def TimeSorted (xs : List α) : Prop := xs.Pairwise fun a b => time a ≤ time b

variable {time}

theorem behind_zero (xs : List α) (low : τ) : Behind time xs ∅ 0 low :=
  ⟨Nat.zero_le _, by simp, by simp⟩

theorem drop_skipped (xs : List α) (idx : Nat) (lo : τ) :
    xs.drop (skipped time xs idx lo) = (xs.drop idx).dropWhile fun a => time a < lo := by
  rw [skipped, ← List.drop_drop, drop_length_takeWhile]

theorem TimeSorted.drop {xs : List α} (h : TimeSorted time xs) (n : Nat) :
    TimeSorted time (xs.drop n) := h.sublist (List.drop_sublist n xs)

/-- In a sorted list, what follows the elements before `lo` is not before `lo`. -/
theorem TimeSorted.le_of_mem_dropWhile {xs : List α} (h : TimeSorted time xs) {lo : τ} {a : α}
    (ha : a ∈ xs.dropWhile fun a => time a < lo) : lo ≤ time a := by
  induction xs with
  | nil => simp at ha
  | cons b xs ih =>
    obtain ⟨hb, hxs⟩ := List.pairwise_cons.mp h
    by_cases hlt : time b < lo
    · exact ih hxs (by simpa [List.dropWhile_cons, hlt] using ha)
    · have hle : lo ≤ time b := not_lt.mp hlt
      rcases List.mem_cons.mp (by simpa [List.dropWhile_cons, hlt] using ha) with rfl | ha
      · exact hle
      · exact hle.trans (hb a ha)

/-- In a sorted list, what follows the elements up to `hi` is after `hi`. -/
theorem TimeSorted.lt_of_mem_dropWhile {xs : List α} (h : TimeSorted time xs) {hi : τ} {a : α}
    (ha : a ∈ xs.dropWhile fun a => time a ≤ hi) : hi < time a := by
  induction xs with
  | nil => simp at ha
  | cons b xs ih =>
    obtain ⟨hb, hxs⟩ := List.pairwise_cons.mp h
    by_cases hle : time b ≤ hi
    · exact ih hxs (by simpa [List.dropWhile_cons, hle] using ha)
    · have hlt : hi < time b := not_le.mp hle
      rcases List.mem_cons.mp (by simpa [List.dropWhile_cons, hle] using ha) with rfl | ha
      · exact hlt
      · exact hlt.trans_le (hb a ha)

/-! ## Steps of the cursor -/

theorem skipped_le {xs : List α} {used : Finset Nat} {idx : Nat} {low lo : τ}
    (h : Behind time xs used idx low) : skipped time xs idx lo ≤ xs.length := by
  have hlen := (List.takeWhile_sublist (fun a => decide (time a < lo)) (l := xs.drop idx)).length_le
  have := h.inside
  simp only [List.length_drop] at hlen
  unfold skipped
  omega

/-- Skipping the elements before a later interval. -/
theorem Behind.skip {xs : List α} {used : Finset Nat} {idx : Nat} {low lo : τ}
    (h : Behind time xs used idx low) (hlo : low ≤ lo) :
    Behind time xs used (skipped time xs idx lo) lo := by
  refine ⟨skipped_le h, fun i hi => (h.fresh i hi).trans_le (Nat.le_add_right _ _), ?_⟩
  intro i a ha hlt
  rcases Nat.lt_or_ge i idx with hidx | hidx
  · exact (h.passed i a ha hidx).imp_right fun ht => ht.trans_le hlo
  · right
    have hk : i - idx < ((xs.drop idx).takeWhile fun a => time a < lo).length := by
      unfold skipped at hlt
      omega
    have hget : (xs.drop idx)[i - idx]? = some a := by
      rw [List.getElem?_drop, Nat.add_sub_cancel' hidx, ha]
    simpa using of_lt_length_takeWhile hget hk

/-- Using every element of the interval. -/
theorem Behind.collect {xs : List α} {used : Finset Nat} {idx : Nat} {lo : τ}
    (h : Behind time xs used idx lo) (hi : τ) :
    Behind time xs (used ∪ (((taken time xs idx hi).zipIdx idx).map Prod.snd).toFinset)
      (idx + (taken time xs idx hi).length) lo := by
  have hlen :=
    (List.takeWhile_sublist (fun a => decide (time a ≤ hi)) (l := xs.drop idx)).length_le
  have hinside := h.inside
  simp only [List.length_drop] at hlen
  have hmem : ∀ i, i ∈ (((taken time xs idx hi).zipIdx idx).map Prod.snd).toFinset ↔
      idx ≤ i ∧ i < idx + (taken time xs idx hi).length := by
    intro i
    simp only [List.zipIdx_map_snd, List.mem_toFinset, List.mem_range', Nat.one_mul]
    constructor
    · rintro ⟨k, hk, rfl⟩
      omega
    · rintro ⟨hle, hlt⟩
      exact ⟨i - idx, by omega, by omega⟩
  refine ⟨by unfold taken; omega, fun i hi' => ?_, fun i a ha hlt => ?_⟩
  · rcases Finset.mem_union.mp hi' with hi' | hi'
    · exact (h.fresh i hi').trans_le (Nat.le_add_right _ _)
    · exact ((hmem i).mp hi').2
  · rcases Nat.lt_or_ge i idx with hidx | hidx
    · exact (h.passed i a ha hidx).imp_left fun hu => Finset.mem_union_left _ hu
    · exact .inl (Finset.mem_union_right _ ((hmem i).mpr ⟨hidx, hlt⟩))

/-- Using the element at the cursor. -/
theorem Behind.use {xs : List α} {used : Finset Nat} {idx : Nat} {lo : τ}
    (h : Behind time xs used idx lo) (hlt : idx < xs.length) :
    Behind time xs (insert idx used) (idx + 1) lo := by
  refine ⟨hlt, fun i hi => ?_, fun i a ha hi => ?_⟩
  · rcases Finset.mem_insert.mp hi with rfl | hi
    · exact Nat.lt_succ_self _
    · exact (h.fresh i hi).trans (Nat.lt_succ_self _)
  · rcases Nat.lt_or_eq_of_le (Nat.lt_succ_iff.mp hi) with hi | rfl
    · exact (h.passed i a ha hi).imp_left fun hu => Finset.mem_insert_of_mem hu
    · exact .inl (Finset.mem_insert_self _ _)

/-- The join finds what the cursor reads next. -/
theorem Behind.available_eq {xs : List α} {used : Finset Nat} {idx : Nat} {lo : τ}
    (h : Behind time xs used idx lo) (hsorted : TimeSorted time xs)
    (hfrom : ∀ a ∈ xs.drop idx, lo ≤ time a) (hi : τ) :
    available time xs used lo hi = (taken time xs idx hi).zipIdx idx := by
  have hsplit : xs = xs.take idx ++ (taken time xs idx hi ++
      (xs.drop idx).dropWhile fun a => time a ≤ hi) := by
    rw [taken, List.takeWhile_append_dropWhile, List.take_append_drop]
  have htake : (xs.take idx).length = idx := by simpa using h.inside
  unfold available
  conv_lhs => rw [hsplit]
  rw [List.zipIdx_append, List.zipIdx_append, List.filter_append, List.filter_append, htake,
    Nat.zero_add]
  have hbefore : ((xs.take idx).zipIdx).filter
      (fun x => decide (x.2 ∉ used ∧ lo ≤ time x.1 ∧ time x.1 ≤ hi)) = [] := by
    rw [List.filter_eq_nil_iff]
    rintro ⟨a, i⟩ ha hx
    have hget := List.mem_zipIdx_iff_getElem?.mp ha
    obtain ⟨hunused, hlo, -⟩ := of_decide_eq_true hx
    rw [List.getElem?_take] at hget
    split at hget
    · rename_i hlt
      rcases h.passed i a hget hlt with hu | ht
      · exact hunused hu
      · exact absurd ht (not_lt.mpr hlo)
    · cases hget
  have hinside : ((taken time xs idx hi).zipIdx idx).filter
      (fun x => decide (x.2 ∉ used ∧ lo ≤ time x.1 ∧ time x.1 ≤ hi)) =
        (taken time xs idx hi).zipIdx idx := by
    rw [List.filter_eq_self]
    rintro ⟨a, i⟩ ha
    have hle : idx ≤ i := List.le_snd_of_mem_zipIdx ha
    have hmem : a ∈ taken time xs idx hi := List.fst_mem_of_mem_zipIdx ha
    have hhi : time a ≤ hi := by simpa using List.mem_takeWhile_imp hmem
    have hlo := hfrom a ((List.takeWhile_sublist _).subset hmem)
    have hunused : i ∉ used := fun hu => absurd (h.fresh i hu) (not_lt.mpr hle)
    simp [hunused, hlo, hhi]
  have hafter : (((xs.drop idx).dropWhile fun a => time a ≤ hi).zipIdx
      (idx + (taken time xs idx hi).length)).filter
        (fun x => decide (x.2 ∉ used ∧ lo ≤ time x.1 ∧ time x.1 ≤ hi)) = [] := by
    rw [List.filter_eq_nil_iff]
    rintro ⟨a, i⟩ ha hx
    have hlt := (hsorted.drop idx).lt_of_mem_dropWhile (List.fst_mem_of_mem_zipIdx ha)
    obtain ⟨-, -, hhi⟩ := of_decide_eq_true hx
    exact absurd hlt (not_lt.mpr hhi)
  rw [hbefore, hinside, hafter, List.nil_append, List.append_nil]

/-- The same after the elements before the interval are skipped. -/
theorem Behind.available_skipped {xs : List α} {used : Finset Nat} {idx : Nat} {low lo : τ}
    (h : Behind time xs used idx low) (hsorted : TimeSorted time xs) (hlo : low ≤ lo) (hi : τ) :
    available time xs used lo hi =
      (taken time xs (skipped time xs idx lo) hi).zipIdx (skipped time xs idx lo) := by
  apply (h.skip hlo).available_eq hsorted
  intro a ha
  rw [drop_skipped] at ha
  exact (hsorted.drop idx).le_of_mem_dropWhile ha

end Join

end CarFi.Library

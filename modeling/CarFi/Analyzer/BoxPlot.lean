import Mathlib.Algebra.Order.Archimedean.Basic
import Mathlib.Algebra.Order.Field.Rat
import Mathlib.Algebra.Order.Floor.Ring
import Mathlib.Data.List.ModifyLast
import Mathlib.Data.Rat.Floor
import Mathlib.Order.Bounds.Basic
import Mathlib.Tactic.FieldSimp
import Mathlib.Tactic.Linarith
import Mathlib.Tactic.Ring

/-!
# The bins of a box plot

The clustering of `box_plotter` in `analyzer/plotter.py`. The bins are opened one by one, from the
largest multiple of the interval that is not above the first value, until the current one has the
value; bins without a value are opened as well. The loop that opens them has no bound in the code,
so it gets fuel here, and it ends because the values are sorted.
-/
namespace CarFi.Analyzer

/-- The variables of the clustering. -/
structure Bins where
  currX : ℚ
  posArr : List ℚ
  arrArr : List (List ℚ)
  deriving DecidableEq, Repr

section

variable (xInterval : ℚ)

/-- `math.floor(float(x[0]) / x_interval) * x_interval` -/
def xMin (x₀ : ℚ) : ℚ := ⌊x₀ / xInterval⌋ * xInterval

def Bins.first (currX : ℚ) : Bins := ⟨currX, [currX + xInterval / 2], [[]]⟩

/-- The body of the inner loop. -/
def Bins.open (s : Bins) : Bins where
  currX := s.currX + xInterval
  posArr := s.posArr ++ [s.currX + xInterval + xInterval / 2]
  arrArr := s.arrArr ++ [[]]

/-- The inner loop, which tests its condition at most `fuel` times. -/
def Bins.advance (xx : ℚ) : Nat → Bins → Option Bins
  | 0, _ => none
  | fuel + 1, s =>
    if s.currX ≤ xx ∧ xx < s.currX + xInterval then some s
    else Bins.advance xx fuel (s.open xInterval)

/-- `arr_arr[-1].append(yy)` -/
def Bins.append (s : Bins) (yy : ℚ) : Bins :=
  { s with arrArr := s.arrArr.modifyLast (· ++ [yy]) }

/-- One turn of the outer loop. -/
def Bins.turn (fuel : Nat) (s : Bins) (p : ℚ × ℚ) : Option Bins :=
  (Bins.advance xInterval p.1 fuel s).map (·.append p.2)

/-- The clustering of `box_plotter`. Without a value there is no plot, which is the inner `none`;
the outer one is the lack of fuel. -/
def boxBins (fuel : Nat) (x y : List ℚ) : Option (Option Bins) :=
  match x with
  | [] => some none
  | x₀ :: _ =>
    ((x.zip y).foldlM (Bins.turn xInterval fuel) (.first xInterval (xMin xInterval x₀))).map some

end

/-! ## What the bins hold -/

/-- The value lies in the bin number `k`. -/
def InBin (xInterval lo : ℚ) (k : Nat) (xx : ℚ) : Prop :=
  lo + k * xInterval ≤ xx ∧ xx < lo + (k + 1) * xInterval

instance (xInterval lo : ℚ) (k : Nat) (xx : ℚ) : Decidable (InBin xInterval lo k xx) :=
  inferInstanceAs (Decidable (_ ∧ _))

/-- The values of `y` in the bin number `k`. -/
def binOf (xInterval lo : ℚ) (data : List (ℚ × ℚ)) (k : Nat) : List ℚ :=
  (data.filter fun p => InBin xInterval lo k p.1).map Prod.snd

/-- The variables after some of the data: the bins up to the number `n` are open, nothing lies
above the last one, and nothing is lost. -/
structure Binned (xInterval lo : ℚ) (data : List (ℚ × ℚ)) (n : Nat) (s : Bins) : Prop where
  currX : s.currX = lo + n * xInterval
  posArr : s.posArr = (List.range (n + 1)).map fun k : Nat => lo + (k + 1 / 2) * xInterval
  arrArr : s.arrArr = (List.range (n + 1)).map (binOf xInterval lo data)
  below : ∀ p ∈ data, p.1 < s.currX + xInterval
  flatten : s.arrArr.flatten = data.map Prod.snd

theorem binned_first (xInterval lo : ℚ) :
    Binned xInterval lo [] 0 (.first xInterval lo) where
  currX := by simp [Bins.first]
  posArr := by simp [Bins.first, div_eq_inv_mul]
  arrArr := rfl
  below := by simp
  flatten := rfl

section

variable {xInterval lo : ℚ} (hpos : 0 < xInterval) {data : List (ℚ × ℚ)} {n : Nat} {s : Bins}

include hpos

/-- A new bin has none of the earlier values. -/
theorem Binned.open (h : Binned xInterval lo data n s) :
    Binned xInterval lo data (n + 1) (s.open xInterval) where
  currX := by
    rw [Bins.open, h.currX]
    push_cast
    ring
  posArr := by
    rw [Bins.open, h.posArr, h.currX, List.range_succ (n := n + 1), List.map_append,
      List.map_singleton]
    push_cast
    ring_nf
  arrArr := by
    have hempty : binOf xInterval lo data (n + 1) = [] := by
      rw [binOf, List.map_eq_nil_iff, List.filter_eq_nil_iff]
      intro p hp hbin
      have hbelow := h.below p hp
      have habove := (decide_eq_true_iff.mp hbin).1
      rw [h.currX] at hbelow
      push_cast at habove
      linarith
    rw [Bins.open, h.arrArr, List.range_succ (n := n + 1), List.map_append, List.map_singleton,
      hempty]
  below := fun p hp => by
    have hbelow := h.below p hp
    simp only [Bins.open]
    linarith
  flatten := by simp [Bins.open, h.flatten]

/-- The value is put into the bin that has it. -/
theorem Binned.append (h : Binned xInterval lo data n s) {p : ℚ × ℚ} (hlo : s.currX ≤ p.1)
    (hhi : p.1 < s.currX + xInterval) :
    Binned xInterval lo (data ++ [p]) n (s.append p.2) where
  currX := h.currX
  posArr := h.posArr
  arrArr := by
    rw [h.currX] at hlo hhi
    have hlast : InBin xInterval lo n p.1 := ⟨hlo, by linarith⟩
    have hearlier : ∀ k ∈ List.range n, binOf xInterval lo (data ++ [p]) k =
        binOf xInterval lo data k := by
      intro k hk
      have hle : (k + 1 : ℚ) ≤ n := by exact_mod_cast List.mem_range.mp hk
      have hnot : ¬InBin xInterval lo k p.1 := fun hbin => by
        have hmul := mul_le_mul_of_nonneg_right hle hpos.le
        linarith [hbin.2]
      simp [binOf, hnot]
    have hhere : binOf xInterval lo (data ++ [p]) n = binOf xInterval lo data n ++ [p.2] := by
      simp [binOf, hlast]
    rw [Bins.append, h.arrArr, List.range_succ, List.map_append, List.map_append,
      List.map_singleton, List.map_singleton, List.modifyLast_concat, hhere,
      List.map_congr_left hearlier]
  below := by
    intro q hq
    rcases List.mem_append.mp hq with hq | hq
    · exact h.below q hq
    · rw [List.mem_singleton.mp hq]
      exact hhi
  flatten := by
    have hflat := h.flatten
    rw [h.arrArr, List.range_succ, List.map_append, List.map_singleton,
      List.flatten_append] at hflat
    rw [Bins.append, h.arrArr, List.range_succ, List.map_append, List.map_singleton,
      List.modifyLast_concat, List.flatten_append, List.map_append, ← hflat]
    simp

/-- The inner loop ends at the bin of the value, if the value is not below the current bin: with
every bin the value comes nearer by the interval, and it is less than `m + 1` of them away. -/
theorem Binned.advance {xx : ℚ} (h : Binned xInterval lo data n s)
    (hle : s.currX ≤ xx) {m : Nat} (hm : xx < s.currX + (m + 1) * xInterval) :
    ∃ n' s', (∀ fuel > m, Bins.advance xInterval xx fuel s = some s') ∧
      Binned xInterval lo data n' s' ∧ s.currX ≤ s'.currX ∧ s'.currX ≤ xx ∧
      xx < s'.currX + xInterval := by
  induction m generalizing n s with
  | zero =>
    have hin : s.currX ≤ xx ∧ xx < s.currX + xInterval := ⟨hle, by simpa using hm⟩
    refine ⟨n, s, fun fuel hfuel => ?_, h, le_refl _, hin⟩
    obtain ⟨fuel, rfl⟩ : ∃ f, fuel = f + 1 := ⟨fuel - 1, by omega⟩
    exact if_pos hin
  | succ m ih =>
    by_cases hin : s.currX ≤ xx ∧ xx < s.currX + xInterval
    · refine ⟨n, s, fun fuel hfuel => ?_, h, le_refl _, hin⟩
      obtain ⟨fuel, rfl⟩ : ∃ f, fuel = f + 1 := ⟨fuel - 1, by omega⟩
      exact if_pos hin
    · have hnext : (s.open xInterval).currX = s.currX + xInterval := rfl
      have hle' : (s.open xInterval).currX ≤ xx := by
        rw [hnext]
        by_contra hlt
        exact hin ⟨hle, not_le.mp hlt⟩
      have hm' : xx < (s.open xInterval).currX + (m + 1) * xInterval := by
        rw [hnext]
        push_cast at hm
        linarith
      obtain ⟨n', s', hs', hbin, hmono, hlast⟩ := ih (h.open hpos) hle' hm'
      refine ⟨n', s', fun fuel hfuel => ?_, hbin, by rw [hnext] at hmono; linarith, hlast⟩
      obtain ⟨fuel, rfl⟩ : ∃ f, fuel = f + 1 := ⟨fuel - 1, by omega⟩
      rw [Bins.advance, if_neg hin]
      exact hs' fuel (by omega)

/-- The outer loop, over sorted data from the current bin on. -/
theorem Binned.foldlM {m : Nat} {rest : List (ℚ × ℚ)} (h : Binned xInterval lo data n s)
    (hlo : lo ≤ s.currX) (hsorted : rest.Pairwise fun p q => p.1 ≤ q.1)
    (hle : ∀ p ∈ rest, s.currX ≤ p.1) (hm : ∀ p ∈ rest, p.1 < lo + (m + 1) * xInterval) :
    ∃ n' s', (∀ fuel > m, rest.foldlM (Bins.turn xInterval fuel) s = some s') ∧
      Binned xInterval lo (data ++ rest) n' s' := by
  induction rest generalizing data n s with
  | nil => exact ⟨n, s, fun _ _ => rfl, by simpa using h⟩
  | cons p rest ih =>
    obtain ⟨hp, hsorted⟩ := List.pairwise_cons.mp hsorted
    obtain ⟨n₁, s₁, hs₁, hbin, hmono, hcurr, hhi⟩ := h.advance hpos (hle p (by simp))
      (by linarith [hm p (by simp)] : p.1 < s.currX + (m + 1) * xInterval)
    obtain ⟨n', s', hs', hbin'⟩ := ih (hbin.append hpos hcurr hhi) (hlo.trans hmono) hsorted
      (fun q hq => hcurr.trans (hp q hq)) fun q hq => hm q (by simp [hq])
    refine ⟨n', s', fun fuel hfuel => ?_, by simpa using hbin'⟩
    rw [List.foldlM_cons, Bins.turn, hs₁ fuel hfuel]
    exact hs' fuel hfuel

end

theorem xMin_isGreatest {xInterval : ℚ} (hpos : 0 < xInterval) (x₀ : ℚ) :
    IsGreatest {v | (∃ z : ℤ, v = z * xInterval) ∧ v ≤ x₀} (xMin xInterval x₀) := by
  have hle {z : ℤ} : (z : ℚ) * xInterval ≤ x₀ ↔ z ≤ ⌊x₀ / xInterval⌋ := by
    rw [Int.le_floor, le_div_iff₀ hpos]
  refine ⟨⟨⟨_, rfl⟩, hle.mpr (le_refl _)⟩, ?_⟩
  rintro _ ⟨⟨z, rfl⟩, hz⟩
  exact mul_le_mul_of_nonneg_right (by exact_mod_cast hle.mp hz) hpos.le

/-- The clustering ends, and the bins partition the data. -/
theorem boxBins_correct (xInterval : ℚ) (hpos : 0 < xInterval) (x₀ : ℚ) (x y : List ℚ)
    (hlen : (x₀ :: x).length = y.length) (hsorted : (x₀ :: x).Pairwise (· ≤ ·)) :
    IsGreatest {v | (∃ z : ℤ, v = z * xInterval) ∧ v ≤ x₀} (xMin xInterval x₀) ∧
    ∃ bins,
      (∃ fuel₀, ∀ fuel ≥ fuel₀,
        boxBins xInterval fuel (x₀ :: x) y = some (some bins)) ∧
      bins.arrArr.flatten = y ∧
      ∃ n,
        bins.posArr =
          (List.range n).map (fun k : Nat => xMin xInterval x₀ + (k + 1 / 2) * xInterval) ∧
        bins.arrArr =
          (List.range n).map (binOf xInterval (xMin xInterval x₀) ((x₀ :: x).zip y)) := by
  have hgreatest := xMin_isGreatest hpos x₀
  refine ⟨hgreatest, ?_⟩
  have hfst : ∀ p ∈ (x₀ :: x).zip y, p.1 ∈ x₀ :: x := fun p hp => (List.of_mem_zip hp).1
  have hfirst : ∀ v ∈ x₀ :: x, x₀ ≤ v := by
    intro v hv
    rcases List.mem_cons.mp hv with rfl | hv
    · exact le_refl v
    · exact (List.pairwise_cons.mp hsorted).1 v hv
  -- every value is reached by finitely many intervals
  obtain ⟨m, hm⟩ : ∃ m : Nat, ∀ v ∈ x₀ :: x,
      v < xMin xInterval x₀ + (m + 1) * xInterval := by
    obtain ⟨hi, hhi⟩ : ∃ hi, (x₀ :: x).max? = some hi := Option.isSome_iff_exists.mp rfl
    obtain ⟨m, hm⟩ := exists_nat_gt ((hi - xMin xInterval x₀) / xInterval)
    rw [div_lt_iff₀ hpos] at hm
    refine ⟨m, fun v hv => ?_⟩
    have hv := (List.max?_eq_some_iff.mp hhi).2 v hv
    linarith
  have hpairs : ((x₀ :: x).zip y).Pairwise fun p q => p.1 ≤ q.1 := by
    rw [← List.pairwise_map, List.map_fst_zip (by omega)]
    exact hsorted
  obtain ⟨n, bins, hrun, hbin⟩ :=
    (binned_first xInterval (xMin xInterval x₀)).foldlM hpos (m := m) (le_refl _)
      hpairs (fun p hp => hgreatest.1.2.trans (hfirst _ (hfst p hp)))
    (fun p hp => hm _ (hfst p hp))
  refine ⟨bins, ⟨m + 1, fun fuel hfuel => ?_⟩, ?_, n + 1, hbin.posArr, hbin.arrArr⟩
  · rw [boxBins, hrun fuel hfuel]
    rfl
  · rw [hbin.flatten, List.nil_append, List.map_snd_zip (by omega)]

theorem boxBins_correct_gap :
    IsGreatest {v : ℚ | (∃ z : ℤ, v = z * (5 / 2)) ∧ v ≤ 3} (xMin (5 / 2) 3) ∧
    ∃ bins,
      (∃ fuel₀, ∀ fuel ≥ fuel₀,
        boxBins (5 / 2) fuel [3, 4, 11] [1, 2, 3] = some (some bins)) ∧
      bins.arrArr.flatten = [1, 2, 3] ∧
      ∃ n,
        bins.posArr = (List.range n).map (fun k : Nat => xMin (5 / 2) 3 + (k + 1 / 2) * (5 / 2)) ∧
        bins.arrArr =
          (List.range n).map (binOf (5 / 2) (xMin (5 / 2) 3) ([3, 4, 11].zip [1, 2, 3])) :=
  boxBins_correct (5 / 2) (by norm_num) 3 [4, 11] [1, 2, 3] rfl (by norm_num)

/-- Bins without a value stay empty. -/
example : (boxBins (5 / 2) 9 [3, 4, 11] [1, 2, 3]).map (·.map (·.arrArr)) =
    some (some [[1, 2], [], [], [3]]) := by
  decide +kernel

end CarFi.Analyzer

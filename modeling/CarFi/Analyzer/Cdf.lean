import Mathlib.Algebra.BigOperators.Group.List.Lemmas
import Mathlib.Algebra.Order.Field.Rat
import Mathlib.Data.List.Dedup
import Mathlib.Data.List.Induction
import Mathlib.Data.List.ModifyLast
import Mathlib.Data.List.Sort
import Mathlib.Tactic.FieldSimp
import Mathlib.Tactic.Linarith
import CarFi.Library.PyText

/-!
# Empirical distributions and quantiles

`__get_cdf` of `analyzer/plotter.py` and of `analyzer/multi_carfi_LB.py`, and
`__get_quantile_from_cdf`. The distribution is counted over the sorted sample and summed up in
place. The quantile walks along the steps of the distribution and interpolates between them; below
the first step there is nothing to interpolate, and it returns `None`.
-/
namespace CarFi.Analyzer

open Library

variable {α σ : Type*} [LinearOrder α]

/-! ## The distribution -/

/-- One turn of the loop that counts equal neighbours. -/
def countStep (s : List α × List Nat) (elem : α) : List α × List Nat :=
  if s.2.length = 0 then (s.1 ++ [elem], s.2 ++ [1])
  else if s.1.getLast? = some elem then (s.1, s.2.modifyLast (· + 1))
  else (s.1 ++ [elem], s.2 ++ [1])

/-- One turn of the loop that sums up the counts in place and divides by the sample size. -/
def sumStep (n : Nat) (s : List Nat × List ℚ) (i : Nat) : List Nat × List ℚ :=
  let counts := if i ≠ 0 then s.1.modify i (· + s.1.getD (i - 1) 0) else s.1
  (counts, s.2 ++ [(counts.getD i 0 : ℚ) / n])

/-- The part that both versions of `__get_cdf` share: `arr` is sorted. -/
def cdfOfSorted (arr : List α) : List α × List ℚ :=
  let (x, counts) := arr.foldl countStep ([], [])
  (x, ((List.range counts.length).foldl (sumStep arr.length) (counts, [])).2)

/-- `__get_cdf` of `plotter.py`; `stats` are the mean, the deviation, the maximum and the minimum
that `numpy` computes. -/
def getCdf (stats : List α → σ) (arr : List α) : List α × List ℚ × σ :=
  let arr := arr.insertionSort (· ≤ ·)
  let (x, y) := cdfOfSorted arr
  (x, y, stats arr)

/-- `__get_cdf` of `multi_carfi_LB.py` -/
def MultiCarfiLB.getCdf (arr : List α) : List α × List ℚ :=
  cdfOfSorted (arr.insertionSort (· ≤ ·))

/-- The fraction of the sample that is at most `v`. -/
def fractionLE (arr : List α) (v : α) : ℚ := (arr.countP (· ≤ v) : ℚ) / arr.length

/-! ## Counting -/

/-- The values and their counts after a sorted part `arr` of the sample. -/
structure CountsOf (arr : List α) (s : List α × List Nat) : Prop where
  increasing : s.1.Pairwise (· < ·)
  mem_iff : ∀ v, v ∈ s.1 ↔ v ∈ arr
  counts : s.2 = s.1.map (arr.count ·)

theorem CountsOf.step {arr : List α} {s : List α × List Nat} (h : CountsOf arr s) {elem : α}
    (hle : ∀ v ∈ arr, v ≤ elem) : CountsOf (arr ++ [elem]) (countStep s elem) := by
  obtain ⟨x, counts⟩ := s
  obtain ⟨hinc, hmem, hcounts⟩ := h
  dsimp only at hinc hmem hcounts
  subst hcounts
  have hother : ∀ v, v ≠ elem → (arr ++ [elem]).count v = arr.count v := by
    intro v hv
    simp [Ne.symm hv]
  -- a value that is not the last one opens a new step
  have hnew (hx : ∀ v ∈ x, v < elem) :
      CountsOf (arr ++ [elem]) (x ++ [elem], x.map (arr.count ·) ++ [1]) := by
    have hnot : elem ∉ arr := fun he => lt_irrefl _ (hx elem ((hmem elem).mpr he))
    refine ⟨List.pairwise_append.mpr ⟨hinc, by simp, by simpa using hx⟩, by simp [hmem], ?_⟩
    have hrest : x.map (arr.count ·) = x.map ((arr ++ [elem]).count ·) :=
      List.map_congr_left fun v hv => (hother v (hx v hv).ne).symm
    simp [hrest, List.count_eq_zero_of_not_mem hnot]
  rw [countStep]
  split_ifs with hnil hlast
  · obtain rfl : x = [] := by simpa using hnil
    exact hnew (by simp)
  · -- the last value is counted once more
    obtain ⟨x, rfl⟩ : ∃ l, x = l ++ [elem] :=
      ⟨x.dropLast, (List.dropLast_append_getLast? _ hlast).symm⟩
    have hbelow : ∀ v ∈ x, v < elem := fun v hv =>
      (List.pairwise_append.mp hinc).2.2 v hv elem (by simp)
    have helem : elem ∈ arr := (hmem elem).mp (by simp)
    refine ⟨hinc, fun v => ?_, ?_⟩
    · rw [hmem, List.mem_append, List.mem_singleton]
      constructor
      · exact .inl
      · rintro (hv | rfl)
        · exact hv
        · exact helem
    · have hrest : x.map (arr.count ·) = x.map ((arr ++ [elem]).count ·) :=
        List.map_congr_left fun v hv => (hother v (hbelow v hv).ne).symm
      dsimp only
      rw [List.map_append, List.map_singleton, List.modifyLast_concat, List.map_append, hrest]
      simp
  · refine hnew fun v hv => lt_of_le_of_ne (hle v ((hmem v).mp hv)) ?_
    rintro rfl
    obtain ⟨l, b, rfl⟩ := List.eq_nil_or_concat' x |>.resolve_left (by rintro rfl; simp at hv)
    have hb : b ≠ v := fun hb => hlast (by simp [hb])
    have hle : b ≤ v := hle b ((hmem b).mp (by simp))
    have hlt : v < b := by
      have hl : v ∈ l := by
        rcases List.mem_append.mp hv with hl | hl
        · exact hl
        · exact absurd (List.mem_singleton.mp hl).symm hb
      exact (List.pairwise_append.mp hinc).2.2 v hl b (by simp)
    exact absurd hlt (not_lt.mpr hle)

theorem countsOf_foldl {arr : List α} (hsorted : arr.Pairwise (· ≤ ·)) :
    CountsOf arr (arr.foldl countStep ([], [])) := by
  induction arr using List.reverseRecOn with
  | nil => exact ⟨.nil, by simp, rfl⟩
  | append_singleton arr elem ih =>
    obtain ⟨hpre, -, hle⟩ := List.pairwise_append.mp hsorted
    rw [List.foldl_append]
    exact (ih hpre).step fun v hv => hle v hv elem (by simp)

/-- The counts of the values up to `v` are the sample up to `v`. -/
theorem sum_take_counts {arr x : List α} (hinc : x.Pairwise (· < ·))
    (hmem : ∀ v, v ∈ x ↔ v ∈ arr) {i : Nat} (hi : i < x.length) :
    ((x.take (i + 1)).map (arr.count ·)).sum = arr.countP (· ≤ x[i]) := by
  have hperm : (x.take (i + 1)).Perm (arr.dedup.filter (· ≤ x[i])) := by
    refine (List.perm_ext_iff_of_nodup ((hinc.imp ne_of_lt).take) (arr.nodup_dedup.filter _)).mpr ?_
    intro v
    rw [List.mem_filter, List.mem_dedup, ← hmem, decide_eq_true_iff, List.mem_take_iff_getElem]
    have hmono : ∀ j (hj : j < x.length), x[j] ≤ x[i] ↔ j ≤ i := fun j hj =>
      hinc.sortedLT.strictMono_get.le_iff_le (a := ⟨j, hj⟩) (b := ⟨i, hi⟩)
    constructor
    · rintro ⟨j, hj, rfl⟩
      exact ⟨List.getElem_mem _, (hmono j _).mpr (by omega)⟩
    · rintro ⟨hv, hle⟩
      obtain ⟨j, hj, rfl⟩ := List.getElem_of_mem hv
      exact ⟨j, by have := (hmono j hj).mp hle; omega, rfl⟩
  rw [(hperm.map _).sum_eq, List.sum_map_count_dedup_filter_eq_countP]

/-! ## Summing up -/

/-- The loop has summed up the first `i` counts. -/
structure SummedTo (n : Nat) (counts : List Nat) (i : Nat) (s : List Nat × List ℚ) : Prop where
  done : ∀ j < i, s.1.getD j 0 = (counts.take (j + 1)).sum
  rest : ∀ j, i ≤ j → s.1.getD j 0 = counts.getD j 0
  length : s.1.length = counts.length
  fractions : s.2 = (List.range i).map fun j => ((counts.take (j + 1)).sum : ℚ) / n

theorem SummedTo.step {n : Nat} {counts : List Nat} {i : Nat} {s : List Nat × List ℚ}
    (h : SummedTo n counts i s) (hi : i < counts.length) :
    SummedTo n counts (i + 1) (sumStep n s i) := by
  obtain ⟨hdone, hrest, hlen, hfrac⟩ := h
  set counts' := if i ≠ 0 then s.1.modify i (· + s.1.getD (i - 1) 0) else s.1 with hcounts'
  -- the sum so far stands right before
  have hhere : counts'.getD i 0 = (counts.take (i + 1)).sum := by
    have hi' : i < s.1.length := hlen ▸ hi
    have hold := hrest i (Nat.le_refl i)
    have hget : counts.getD i 0 = counts[i] := by simp [List.getD_eq_getElem?_getD, hi]
    rw [List.sum_take_succ _ _ hi, ← hget, ← hold]
    rcases Nat.eq_zero_or_pos i with rfl | hpos
    · simp [hcounts']
    · have hprev := hdone (i - 1) (by omega)
      rw [Nat.sub_add_cancel hpos] at hprev
      rw [hcounts', if_pos (by omega), ← hprev]
      simp only [List.getD_eq_getElem?_getD, List.getElem?_modify_eq, List.getElem?_eq_getElem hi',
        Option.getD_some]
      exact Nat.add_comm _ _
  have hother : ∀ j, j ≠ i → counts'.getD j 0 = s.1.getD j 0 := by
    intro j hj
    rw [hcounts']
    split_ifs
    · simp [List.getD_eq_getElem?_getD, Ne.symm hj]
    · rfl
  refine ⟨fun j hj => ?_, fun j hj => ?_, ?_, ?_⟩
  · rcases eq_or_ne j i with rfl | hne
    · exact hhere
    · exact (hother j hne).trans (hdone j (by omega))
  · exact (hother j (by omega)).trans (hrest j (by omega))
  · change counts'.length = _
    rw [hcounts']
    split_ifs <;> simp [hlen]
  · change s.2 ++ [(counts'.getD i 0 : ℚ) / n] = _
    rw [hhere, hfrac, List.range_succ, List.map_append, List.map_singleton]

theorem foldl_sumStep (n : Nat) (counts : List Nat) :
    ((List.range counts.length).foldl (sumStep n) (counts, [])).2 =
      (List.range counts.length).map fun j => ((counts.take (j + 1)).sum : ℚ) / n := by
  have hrun : ∀ i ≤ counts.length,
      SummedTo n counts i ((List.range i).foldl (sumStep n) (counts, [])) := by
    intro i
    induction i with
    | zero => exact fun _ => ⟨by simp, by simp, rfl, rfl⟩
    | succ i ih =>
      intro hi
      rw [List.range_succ, List.foldl_append]
      exact (ih (by omega)).step hi
  exact (hrun _ (Nat.le_refl _)).fractions

/-! ## The distribution of a sample -/

theorem countP_lt_countP {arr : List α} {v w : α} (hlt : v < w) (hw : w ∈ arr) :
    arr.countP (· ≤ v) < arr.countP (· ≤ w) := by
  obtain ⟨s, t, rfl⟩ := List.append_of_mem hw
  have hmono (l : List α) : l.countP (· ≤ v) ≤ l.countP (· ≤ w) :=
    List.countP_mono_left fun u _ hu => by
      simp only [decide_eq_true_eq] at hu ⊢
      exact hu.trans hlt.le
  have hs := hmono s
  have ht := hmono t
  have hnot : ¬w ≤ v := not_le.mpr hlt
  simp only [List.countP_append, List.countP_cons, decide_eq_true_eq, le_refl, if_true,
    hnot, if_false]
  omega

/-- What a distribution of the sample is. -/
structure IsCdf (arr x : List α) (y : List ℚ) : Prop where
  increasing : x.Pairwise (· < ·)
  mem_iff : ∀ v, v ∈ x ↔ v ∈ arr
  fractions : y = x.map (fractionLE arr)

theorem isCdf_cdfOfSorted {arr : List α} (hsorted : arr.Pairwise (· ≤ ·)) :
    IsCdf arr (cdfOfSorted arr).1 (cdfOfSorted arr).2 := by
  rw [cdfOfSorted]
  generalize hs : arr.foldl countStep ([], []) = s
  obtain ⟨hinc, hmem, hcounts⟩ := hs ▸ countsOf_foldl hsorted
  obtain ⟨x, counts⟩ := s
  dsimp only at hinc hmem hcounts ⊢
  subst hcounts
  refine ⟨hinc, hmem, ?_⟩
  rw [foldl_sumStep, List.length_map]
  refine List.ext_getElem (by simp) fun i hi _ => ?_
  have hi : i < x.length := by simpa using hi
  rw [List.getElem_map, List.getElem_range, List.getElem_map, fractionLE,
    ← sum_take_counts hinc hmem hi, List.map_take]

theorem IsCdf.of_perm {arr arr' x : List α} {y : List ℚ} (hperm : arr.Perm arr')
    (h : IsCdf arr x y) : IsCdf arr' x y := by
  refine ⟨h.increasing, fun v => (h.mem_iff v).trans hperm.mem_iff, h.fractions.trans ?_⟩
  refine List.map_congr_left fun v _ => ?_
  rw [fractionLE, fractionLE, hperm.countP_eq, hperm.length_eq]

theorem IsCdf.y_increasing {arr x : List α} {y : List ℚ} (h : IsCdf arr x y) :
    y.Pairwise (· < ·) := by
  rw [h.fractions, List.pairwise_map]
  refine h.increasing.imp_of_mem fun {v w} _ hw hlt => ?_
  have hmem : w ∈ arr := (h.mem_iff w).mp hw
  have hpos : (0 : ℚ) < arr.length := by exact_mod_cast List.length_pos_of_mem hmem
  rw [fractionLE, fractionLE]
  exact div_lt_div_of_pos_right (by exact_mod_cast countP_lt_countP hlt hmem) hpos

/-- The last step is at 1. -/
theorem IsCdf.getLast? {arr x : List α} {y : List ℚ} (h : IsCdf arr x y) (hne : arr ≠ []) :
    y.getLast? = some 1 := by
  have hx : x ≠ [] := by
    obtain ⟨v, hv⟩ := List.exists_mem_of_ne_nil _ hne
    exact List.ne_nil_of_mem ((h.mem_iff v).mpr hv)
  obtain ⟨l, b, rfl⟩ := (List.eq_nil_or_concat' x).resolve_left hx
  have hall : arr.countP (· ≤ b) = arr.length := by
    rw [List.countP_eq_length]
    intro v hv
    rcases List.mem_append.mp ((h.mem_iff v).mpr hv) with hl | hb
    · exact decide_eq_true ((List.pairwise_append.mp h.increasing).2.2 v hl b (by simp)).le
    · exact decide_eq_true (List.mem_singleton.mp hb).le
  have hpos : (arr.length : ℚ) ≠ 0 := by simpa using hne
  simp [h.fractions, fractionLE, hall, hpos]

theorem isCdf_getCdf (stats : List α → σ) (arr : List α) :
    IsCdf arr (getCdf stats arr).1 (getCdf stats arr).2.1 :=
  (isCdf_cdfOfSorted (List.pairwise_insertionSort (· ≤ ·) arr)).of_perm
    (List.perm_insertionSort ..)

/-- Both versions return the distribution of the sample. -/
theorem getCdf_correct (stats : List α → σ) (arr : List α) (hne : arr ≠ []) :
    ∃ x y, getCdf stats arr = (x, y, stats (arr.insertionSort (· ≤ ·))) ∧
      MultiCarfiLB.getCdf arr = (x, y) ∧ x.Pairwise (· < ·) ∧
      (∀ v, v ∈ x ↔ v ∈ arr) ∧ y = x.map (fractionLE arr) ∧ y.Pairwise (· < ·) ∧
      y.getLast? = some 1 := by
  have h := isCdf_getCdf stats arr
  exact ⟨_, _, rfl, rfl, h.increasing, h.mem_iff, h.fractions, h.y_increasing, h.getLast? hne⟩

theorem getCdf_correct_three :
    ∃ x y, getCdf List.length [3, 1, 3] = (x, y, 3) ∧ MultiCarfiLB.getCdf [3, 1, 3] = (x, y) ∧
      x.Pairwise (· < ·) ∧ (∀ v, v ∈ x ↔ v ∈ [3, 1, 3]) ∧
      y = x.map (fractionLE [3, 1, 3]) ∧ y.Pairwise (· < ·) ∧ y.getLast? = some 1 :=
  getCdf_correct List.length [3, 1, 3] (by simp)

/-! ## Quantiles -/

/-- The value between two steps of the distribution. -/
def interpolate (a b u w pt : ℚ) : ℚ := (a * (w - pt) + b * (pt - u)) / (w - u)

/-- The loop of `__get_quantile_from_cdf`, from an index on: `y[i + 1]` is only looked at if `pt`
is above `y[i]`. -/
def quantileLoop (pt : ℚ) : List ℚ → List ℚ → Except PyError (Option ℚ)
  | [], _ => .ok none
  | _ :: _, [] => .error .indexError
  | a :: x, u :: y =>
    if pt = u then .ok (some a)
    else if u < pt then
      match y with
      | [] => .error .indexError
      | w :: _ =>
        if pt < w then
          match x with
          | [] => .error .indexError
          | b :: _ => .ok (some (interpolate a b u w pt))
        else quantileLoop pt x y
    else quantileLoop pt x y

/-- `__get_quantile_from_cdf` -/
def getQuantileFromCdf (x y : List ℚ) (pt : ℚ) : Except PyError (Option ℚ) :=
  if 0 ≤ pt ∧ pt ≤ 1 then quantileLoop pt x y else .error .assertionError

theorem interpolate_mono {a b u w p q : ℚ} (hab : a ≤ b) (huw : u < w) (hpq : p ≤ q) :
    interpolate a b u w p ≤ interpolate a b u w q := by
  unfold interpolate
  apply div_le_div_of_nonneg_right _ (by linarith)
  nlinarith

theorem interpolate_left {a b u w : ℚ} (huw : u < w) : interpolate a b u w u = a := by
  have hne : w - u ≠ 0 := by linarith
  rw [interpolate, sub_self, mul_zero, add_zero, mul_div_cancel_right₀ _ hne]

theorem interpolate_right {a b u w : ℚ} (huw : u < w) : interpolate a b u w w = b := by
  have hne : w - u ≠ 0 := by linarith
  rw [interpolate, sub_self, mul_zero, zero_add, mul_div_cancel_right₀ _ hne]

/-- Below the first step there is no quantile. -/
theorem quantileLoop_below {pt : ℚ} {x y : List ℚ} (hlen : x.length = y.length)
    (hbelow : ∀ u ∈ y, pt < u) : quantileLoop pt x y = .ok none := by
  induction x generalizing y with
  | nil => rfl
  | cons a x ih =>
    obtain ⟨u, y, rfl⟩ := List.exists_cons_of_length_eq_add_one hlen.symm
    obtain ⟨hu, hy⟩ := List.forall_mem_cons.mp hbelow
    rw [quantileLoop.eq_def]
    dsimp only
    rw [if_neg hu.ne, if_neg (not_lt.mpr hu.le)]
    exact ih (by simpa using hlen) hy

/-- From the first step on there is a quantile, which lies between the first and the last value
and grows with the fraction. The induction is on the steps: past the first one, either both
fractions are before the second step, or the smaller one is, or none. -/
theorem quantileLoop_mono {a : ℚ} {x : List ℚ} {u : ℚ} {y : List ℚ}
    (hlen : x.length = y.length) (hx : (a :: x).Pairwise (· < ·))
    (hy : (u :: y).Pairwise (· < ·)) {last : ℚ} (hlast : (u :: y).getLast? = some last)
    {p q : ℚ} (hp : u ≤ p) (hpq : p ≤ q) (hq : q ≤ last) :
    ∃ v w, quantileLoop p (a :: x) (u :: y) = .ok (some v) ∧
      quantileLoop q (a :: x) (u :: y) = .ok (some w) ∧ a ≤ v ∧ v ≤ w ∧
      ∃ m ∈ a :: x, w ≤ m := by
  induction x generalizing a u y p with
  | nil =>
    obtain rfl : y = [] := List.eq_nil_of_length_eq_zero hlen.symm
    obtain rfl : u = last := by simpa using hlast
    obtain rfl : p = u := le_antisymm (hpq.trans hq) hp
    obtain rfl : q = p := le_antisymm hq hpq
    exact ⟨a, a, by simp [quantileLoop], by simp [quantileLoop], le_refl a, le_refl a, a, by simp,
      le_refl a⟩
  | cons b x ih =>
    obtain ⟨w, y, rfl⟩ := List.exists_cons_of_length_eq_add_one hlen.symm
    obtain ⟨hab, hx'⟩ := List.pairwise_cons.mp hx
    obtain ⟨huw, hy'⟩ := List.pairwise_cons.mp hy
    have hab : a < b := hab b (by simp)
    have huw : u < w := huw w (by simp)
    -- before the second step both ends of the segment are reached by interpolation
    have hhere : ∀ r, u ≤ r → r < w →
        quantileLoop r (a :: b :: x) (u :: w :: y) = .ok (some (interpolate a b u w r)) := by
      intro r hur hrw
      rcases hur.eq_or_lt with rfl | hur
      · rw [quantileLoop, if_pos rfl, interpolate_left huw]
      · rw [quantileLoop, if_neg hur.ne', if_pos hur]
        exact if_pos hrw
    have hthere : ∀ r, w ≤ r →
        quantileLoop r (a :: b :: x) (u :: w :: y) = quantileLoop r (b :: x) (w :: y) := by
      intro r hwr
      have hur : u < r := huw.trans_le hwr
      rw [quantileLoop, if_neg hur.ne', if_pos hur]
      exact if_neg (not_lt.mpr hwr)
    have hlen' : x.length = y.length := by simpa using hlen
    have hlast' : (w :: y).getLast? = some last := by rwa [List.getLast?_cons_cons] at hlast
    rcases lt_or_ge q w with hqw | hwq
    · rw [hhere p hp (hpq.trans_lt hqw), hhere q (hp.trans hpq) hqw]
      refine ⟨_, _, rfl, rfl, ?_, interpolate_mono hab.le huw hpq, b, by simp, ?_⟩
      · exact (interpolate_left huw).symm.trans_le (interpolate_mono hab.le huw hp)
      · exact (interpolate_mono hab.le huw hqw.le).trans_eq (interpolate_right huw)
    · rcases lt_or_ge p w with hpw | hwp
      · obtain ⟨v₁, v, -, hv, hb, hvw, m, hm, hle⟩ := ih hlen' hx' hy' hlast' (le_refl w) hwq
        rw [hhere p hp hpw, hthere q hwq]
        refine ⟨_, v, rfl, hv, ?_, ?_, m, List.mem_cons_of_mem _ hm, hle⟩
        · exact (interpolate_left huw).symm.trans_le (interpolate_mono hab.le huw hp)
        · calc interpolate a b u w p ≤ interpolate a b u w w :=
            interpolate_mono hab.le huw hpw.le
            _ = b := interpolate_right huw
            _ ≤ v := hb.trans hvw
      · obtain ⟨v, v', hv, hv', hb, hvw, m, hm, hle⟩ := ih hlen' hx' hy' hlast' hwp hpq
        rw [hthere p hwp, hthere q hwq]
        exact ⟨v, v', hv, hv', hab.le.trans hb, hvw, m, List.mem_cons_of_mem _ hm, hle⟩

/-- The quantiles of two fractions are numbers of the range of the sample, in their order. -/
def QuantilesInOrder (stats : List ℚ → σ) (arr : List ℚ) (p q : ℚ) : Prop :=
  let (x, y, _) := getCdf stats arr
  ∃ v w lo hi, getQuantileFromCdf x y p = .ok (some v) ∧
    getQuantileFromCdf x y q = .ok (some w) ∧ arr.min? = some lo ∧ arr.max? = some hi ∧
    lo ≤ v ∧ v ≤ hi ∧ lo ≤ w ∧ w ≤ hi ∧ v ≤ w

/-- The fraction of the sample at its minimum. -/
theorem fractionLE_min {arr : List ℚ} {lo : ℚ} (hlo : ∀ v ∈ arr, lo ≤ v) :
    fractionLE arr lo = (arr.count lo : ℚ) / arr.length := by
  rw [fractionLE, List.count]
  congr 2
  refine List.countP_congr fun v hv => ?_
  simp only [decide_eq_true_eq, beq_iff_eq]
  exact ⟨fun h => le_antisymm h (hlo v hv), fun h => h.le⟩

/-- The quantiles are in order exactly from the fraction of the minimum on. -/
theorem quantiles_in_order_iff (stats : List ℚ → σ) (arr : List ℚ)
    (hne : arr ≠ []) (p q : ℚ) (hp : 0 < p) (hpq : p ≤ q) (hq : q ≤ 1) :
    QuantilesInOrder stats arr p q ↔
      ∀ lo, arr.min? = some lo → (arr.count lo : ℚ) / arr.length ≤ p := by
  have hcdf := isCdf_getCdf stats arr
  have hlast := hcdf.getLast? hne
  have hy := hcdf.y_increasing
  rw [QuantilesInOrder]
  generalize getCdf stats arr = r at hcdf hlast hy ⊢
  obtain ⟨x, y, st⟩ := r
  dsimp only at hcdf hlast hy ⊢
  obtain ⟨hx, hmem, hfrac⟩ := hcdf
  obtain ⟨lo, hlo⟩ : ∃ lo, arr.min? = some lo :=
    Option.isSome_iff_exists.mp (by simpa using hne)
  obtain ⟨hi, hhi⟩ : ∃ hi, arr.max? = some hi :=
    Option.isSome_iff_exists.mp (by simpa using hne)
  obtain ⟨hlomem, hlole⟩ := List.min?_eq_some_iff.mp hlo
  obtain ⟨-, hhile⟩ := List.max?_eq_some_iff.mp hhi
  -- the first value is the minimum
  obtain ⟨a, x, rfl⟩ : ∃ a x', x = a :: x' :=
    List.exists_cons_of_ne_nil (List.ne_nil_of_mem ((hmem lo).mpr hlomem))
  have ha : a = lo := by
    refine le_antisymm ?_ (hlole a ((hmem a).mp (by simp)))
    rcases List.mem_cons.mp ((hmem lo).mpr hlomem) with rfl | h
    · exact le_refl _
    · exact ((List.pairwise_cons.mp hx).1 lo h).le
  subst ha
  have hu : fractionLE arr a = (arr.count a : ℚ) / arr.length := fractionLE_min hlole
  have hassert : ∀ r, p ≤ r → r ≤ 1 →
      getQuantileFromCdf (a :: x) y r = quantileLoop r (a :: x) y :=
    fun r hpr hr => if_pos ⟨(hp.trans_le hpr).le, hr⟩
  rw [hassert p (le_refl p) (hpq.trans hq), hassert q hpq hq]
  rw [List.map_cons] at hfrac
  subst hfrac
  constructor
  · rintro ⟨v, -, -, -, hv, -⟩ lo' hlo'
    obtain rfl : a = lo' := Option.some.inj (hlo.symm.trans hlo')
    rw [← hu]
    by_contra hbelow
    rw [not_le] at hbelow
    have hnone : quantileLoop p (a :: x) (fractionLE arr a :: x.map (fractionLE arr)) =
        .ok none := by
      refine quantileLoop_below (by simp) (List.forall_mem_cons.mpr ⟨hbelow, fun u hu => ?_⟩)
      exact hbelow.trans ((List.pairwise_cons.mp hy).1 u hu)
    rw [hnone] at hv
    cases hv
  · intro hcond
    have hfirst : fractionLE arr a ≤ p := hu.trans_le (hcond a hlo)
    obtain ⟨v, w, hv, hw, hav, hvw, m, hm, hwm⟩ :=
      quantileLoop_mono (by simp) hx hy hlast hfirst hpq hq
    have hwhi : w ≤ hi := hwm.trans (hhile m ((hmem m).mp hm))
    exact ⟨v, w, a, hi, hv, hw, hlo, hhi, hav, hvw.trans hwhi, hav.trans hvw, hwhi, hvw⟩

theorem quantiles_in_order_three : QuantilesInOrder List.length [3, 1, 3] (1 / 2) (3 / 4) :=
  (quantiles_in_order_iff List.length [3, 1, 3] (by simp) (1 / 2) (3 / 4)
    (by norm_num) (by norm_num) (by norm_num)).mpr (by
      intro lo hlo
      obtain rfl : lo = 1 := by simpa [List.min?] using hlo.symm
      norm_num [List.count_cons])

/-- The quantile of 1/4 of the sample 1, 2 is `None`. -/
theorem first_quartile_is_none : ¬QuantilesInOrder List.length [1, 2] (1 / 4) (1 / 2) := by
  have hnone : getQuantileFromCdf (getCdf List.length [(1 : ℚ), 2]).1
      (getCdf List.length [(1 : ℚ), 2]).2.1 (1 / 4) = .ok none := by decide +kernel
  rintro ⟨v, -, -, -, hv, -⟩
  cases hnone.symm.trans hv

end CarFi.Analyzer

import CarFi.Library.Probe
import Mathlib.Data.List.Forall2
import Mathlib.Algebra.Order.Ring.Rat
import Mathlib.Tactic.Linarith

/-!
# Connections of two clients at one access point

`find_collision` of `analyzer/multi_carfi_LB.py` looks in a list sorted by time for a connection to
the access point of a target within a time range. It starts at the index of its last answer and
probes forward, back or in both directions. `findCollisions_correct_iff` says that a sequence of
searches is right unless the index lies on the edge of the range and a tie beyond it is missed.
-/
namespace CarFi.Analyzer

open Library

variable {β : Type}

/-- The fields of `APTCPInfo` that are compared. -/
structure Connection (β : Type) where
  l2ConnTS : ℚ
  l2Bssid : β
  deriving DecidableEq

/-! ## The search -/

/-- The index after a search forward: the length of the list becomes the last index. -/
def clampForward (candidateList : List (Connection β)) (i : Nat) : Nat :=
  if i = candidateList.length then i - 1 else i

/-- The index after a search back, given its successor: `-1` becomes `0`. -/
def clampBack : Nat → Nat
  | 0 => 0
  | i + 1 => i

/-- `find_collision`; `none` is the `IndexError`. -/
def findCollision [DecidableEq β] (target : Connection β) (candidateList : List (Connection β))
    (candidateIdx : Nat) (timeRange : ℚ) : Option (Bool × Nat) :=
  let lTime := target.l2ConnTS - timeRange
  let hTime := target.l2ConnTS + timeRange
  let hit : Connection β → Bool := fun c => target.l2Bssid = c.l2Bssid
  candidateList[candidateIdx]?.map fun c =>
    if c.l2ConnTS ≤ lTime then
      let (_, i) := probeForward (fun c => c.l2ConnTS < lTime) (fun _ => false)
        (candidateList.drop candidateIdx) candidateIdx
      let (found, i) := probeForward (fun c => c.l2ConnTS ≤ hTime) hit (candidateList.drop i) i
      if found then (true, i) else (false, clampForward candidateList i)
    else if c.l2ConnTS ≥ hTime then
      let (_, i) := probeBack (fun c => c.l2ConnTS > hTime) (fun _ => false) candidateList
        (candidateIdx + 1)
      let (found, i) := probeBack (fun c => c.l2ConnTS ≥ lTime) hit candidateList i
      (found, clampBack i)
    else
      let (found, i) :=
        probeBack (fun c => c.l2ConnTS ≥ lTime) hit candidateList (candidateIdx + 1)
      if found then (true, clampBack i)
      else
        let (found, i) := probeForward (fun c => c.l2ConnTS ≤ hTime) hit
          (candidateList.drop candidateIdx) candidateIdx
        if found then (true, i) else (false, clampForward candidateList i)

/-- A sequence of searches, each from the index of the last. -/
def findCollisions [DecidableEq β] (candidateList : List (Connection β)) (timeRange : ℚ) :
    Nat → List (Connection β) → List (Bool × Nat)
  | _, [] => []
  | idx, target :: targets =>
    match findCollision target candidateList idx timeRange with
    | none => []
    | some r => r :: findCollisions candidateList timeRange r.2 targets

/-! ## What it should find -/

/-- The candidate is at the access point of the target and within the range of its start. -/
structure Collides (target : Connection β) (timeRange : ℚ) (c : Connection β) : Prop where
  bssid : target.l2Bssid = c.l2Bssid
  low : target.l2ConnTS - timeRange ≤ c.l2ConnTS
  high : c.l2ConnTS ≤ target.l2ConnTS + timeRange

/-- The answer is that of a fresh search, and the index is that of a collision or in range at
least. -/
structure Correct (target : Connection β) (candidateList : List (Connection β)) (timeRange : ℚ)
    (r : Bool × Nat) : Prop where
  inRange : r.2 < candidateList.length
  sound : r.1 = true → ∃ c, candidateList[r.2]? = some c ∧ Collides target timeRange c
  complete : (∃ c ∈ candidateList, Collides target timeRange c) → r.1 = true

/-- The candidate at the index lies on an edge of the range. A tie on the side that is not probed is
the only collision. -/
def MissesTie (target : Connection β) (candidateList : List (Connection β)) (idx : Nat)
    (timeRange : ℚ) : Prop :=
  ∃ c, candidateList[idx]? = some c ∧
    (c.l2ConnTS = target.l2ConnTS - timeRange ∧
        (∃ k d, k < idx ∧ candidateList[k]? = some d ∧ d.l2ConnTS = c.l2ConnTS ∧
          target.l2Bssid = d.l2Bssid) ∧
        (∀ k d, idx ≤ k → candidateList[k]? = some d → ¬Collides target timeRange d) ∨
      c.l2ConnTS = target.l2ConnTS + timeRange ∧ 0 < timeRange ∧
        (∃ k d, idx < k ∧ candidateList[k]? = some d ∧ d.l2ConnTS = c.l2ConnTS ∧
          target.l2Bssid = d.l2Bssid) ∧
        ∀ k d, k ≤ idx → candidateList[k]? = some d → ¬Collides target timeRange d)

/-- No search of a sequence misses a tie. -/
def NeverMissesTie [DecidableEq β] (candidateList : List (Connection β)) (timeRange : ℚ) :
    Nat → List (Connection β) → Prop
  | _, [] => True
  | idx, target :: targets => ¬MissesTie target candidateList idx timeRange ∧
      ∀ r ∈ findCollision target candidateList idx timeRange,
        NeverMissesTie candidateList timeRange r.2 targets

def SortedByStart (candidateList : List (Connection β)) : Prop :=
  candidateList.Pairwise fun a b => a.l2ConnTS ≤ b.l2ConnTS

theorem SortedByStart.le {candidateList : List (Connection β)} (h : SortedByStart candidateList)
    {j k : Nat} {a b : Connection β} (hjk : j ≤ k) (ha : candidateList[j]? = some a)
    (hb : candidateList[k]? = some b) : a.l2ConnTS ≤ b.l2ConnTS := by
  obtain ⟨hj, rfl⟩ := List.getElem?_eq_some_iff.mp ha
  obtain ⟨hk, rfl⟩ := List.getElem?_eq_some_iff.mp hb
  rcases Nat.eq_or_lt_of_le hjk with rfl | hlt
  · exact le_rfl
  · exact List.pairwise_iff_getElem.mp h j k hj hk hlt

/-! ## One search -/

section Search

variable [DecidableEq β] {target : Connection β}
  {candidateList : List (Connection β)} {idx : Nat} {timeRange : ℚ}

/-- The search has looked at all indices with `P`. -/
structure Searched (target : Connection β) (candidateList : List (Connection β)) (timeRange : ℚ)
    (P : Nat → Prop) (r : Bool × Nat) : Prop where
  inRange : r.2 < candidateList.length
  sound : r.1 = true → ∃ c, candidateList[r.2]? = some c ∧ P r.2 ∧
    Collides target timeRange c
  complete : r.1 = false → ∀ k d, P k → candidateList[k]? = some d →
    ¬Collides target timeRange d

/-- Probing forward from an index, behind which everything is too early. -/
theorem searched_forward (hsorted : SortedByStart candidateList) {start : Nat}
    (hstart : start ≤ candidateList.length) (hne : candidateList ≠ []) {P : Nat → Prop}
    (hP : ∀ k, start ≤ k → P k)
    (hlow : ∀ k d, start ≤ k → candidateList[k]? = some d →
      target.l2ConnTS - timeRange ≤ d.l2ConnTS)
    (hbefore : ∀ k d, P k → k < start → candidateList[k]? = some d →
      ¬Collides target timeRange d)
    {r : Bool × Nat}
    (hr : probeForward (fun c => c.l2ConnTS ≤ target.l2ConnTS + timeRange)
      (fun c => target.l2Bssid = c.l2Bssid) (candidateList.drop start) start = r) :
    Searched target candidateList timeRange P
      (if r.1 then (true, r.2) else (false, clampForward candidateList r.2)) := by
  obtain ⟨⟨hle, hpass⟩, hlen, htrue, hfalse⟩ := probeForward_spec hr hstart
  have hpos := List.length_pos_iff.mpr hne
  cases hfound : r.1 with
  | true =>
    obtain ⟨c, hc, hgo, hhit⟩ := htrue hfound
    refine ⟨(List.getElem?_eq_some_iff.mp hc).1, fun _ => ⟨c, hc, hP _ hle, ?_⟩, by simp⟩
    exact ⟨by simpa using hhit, hlow _ c hle hc, by simpa using hgo⟩
  | false =>
    refine ⟨?_, by simp, fun _ k d hk hd hcol => ?_⟩
    · simp only [clampForward]
      split_ifs <;> grind
    · by_cases hkf : k < start
      · exact hbefore k d hk hkf hd hcol
      · by_cases hkr : k < r.2
        · have hhit := (hpass k d (by omega) hkr hd).2
          exact absurd hcol.bssid (by simpa using hhit)
        · have hklt := (List.getElem?_eq_some_iff.mp hd).1
          have hx : candidateList[r.2]? = some candidateList[r.2] :=
            List.getElem?_eq_getElem (by omega)
          have hgo := hfalse hfound _ hx
          have hord := hsorted.le (by omega) hx hd
          have hhigh := hcol.high
          simp only [decide_eq_false_iff_not, not_le] at hgo
          linarith

/-- Probing back from an index, beyond which everything is too late. -/
theorem searched_back (hsorted : SortedByStart candidateList) {stop : Nat}
    (hstop : stop ≤ candidateList.length) (hne : candidateList ≠ []) {P : Nat → Prop}
    (hP : ∀ k, k < stop → P k)
    (hhigh : ∀ k d, k < stop → candidateList[k]? = some d →
      d.l2ConnTS ≤ target.l2ConnTS + timeRange)
    (hafter : ∀ k d, P k → stop ≤ k → candidateList[k]? = some d →
      ¬Collides target timeRange d)
    {r : Bool × Nat}
    (hr : probeBack (fun c => c.l2ConnTS ≥ target.l2ConnTS - timeRange)
      (fun c => target.l2Bssid = c.l2Bssid) candidateList stop = r) :
    Searched target candidateList timeRange P (r.1, clampBack r.2) := by
  obtain ⟨⟨hle, hpass⟩, htrue, hfalse⟩ := probeBack_spec hr hstop
  have hpos := List.length_pos_iff.mpr hne
  have hclamp : clampBack r.2 = r.2 - 1 := by cases r.2 <;> rfl
  refine ⟨by simp only [hclamp]; omega, fun hfound => ?_, fun hfound k d hk hd hcol => ?_⟩
  · obtain ⟨c, hr0, hc, hgo, hhit⟩ := htrue hfound
    refine ⟨c, by simpa [hclamp] using hc, hP _ (by simp only [hclamp]; omega), ?_⟩
    exact ⟨by simpa using hhit, by simpa using hgo, hhigh _ c (by omega) hc⟩
  · by_cases hks : stop ≤ k
    · exact hafter k d hk hks hd hcol
    · by_cases hkr : r.2 ≤ k
      · have hhit := (hpass k d hkr (by omega) hd).2
        exact absurd hcol.bssid (by simpa using hhit)
      · have hx : candidateList[r.2 - 1]? = some candidateList[r.2 - 1] :=
          List.getElem?_eq_getElem (by omega)
        have hgo := hfalse hfound _ (by omega) hx
        have hord := hsorted.le (by omega) hd hx
        have hlow := hcol.low
        simp only [ge_iff_le, decide_eq_false_iff_not, not_le] at hgo
        linarith

/-- What a search has looked at. -/
theorem findCollision_searched (hsorted : SortedByStart candidateList)
    {c : Connection β} (hc : candidateList[idx]? = some c) :
    ∃ r, findCollision target candidateList idx timeRange = some r ∧
      (c.l2ConnTS ≤ target.l2ConnTS - timeRange →
        Searched target candidateList timeRange (idx ≤ ·) r) ∧
      (target.l2ConnTS - timeRange < c.l2ConnTS → target.l2ConnTS + timeRange ≤ c.l2ConnTS →
        Searched target candidateList timeRange (· ≤ idx) r) ∧
      (target.l2ConnTS - timeRange < c.l2ConnTS → c.l2ConnTS < target.l2ConnTS + timeRange →
        Searched target candidateList timeRange (fun _ => True) r) := by
  have hidx : idx < candidateList.length := (List.getElem?_eq_some_iff.mp hc).1
  have hne : candidateList ≠ [] := List.ne_nil_of_length_pos (by omega)
  unfold findCollision
  rw [hc, Option.map_some]
  refine ⟨_, rfl, fun hlow => ?_, fun hlow hhigh => ?_, fun hlow hhigh => ?_⟩
  · rw [if_pos hlow]
    obtain ⟨i, hi, hle, hlen, hpass, hstop⟩ := @probeForward_skip _
      (fun c : Connection β => decide (c.l2ConnTS < target.l2ConnTS - timeRange)) candidateList idx
      hidx.le
    simp only [hi]
    refine searched_forward hsorted hlen hne (fun k hk => hle.trans hk) ?_ ?_ rfl
    · intro k d hk hd
      have hklt := (List.getElem?_eq_some_iff.mp hd).1
      have hx : candidateList[i]? = some candidateList[i] := List.getElem?_eq_getElem (by omega)
      have hord := hsorted.le hk hx hd
      have hgo := hstop _ hx
      simp only [decide_eq_false_iff_not, not_lt] at hgo
      linarith
    · intro k d hk hki hd hcol
      have hgo := hpass k d hk hki hd
      have hcl := hcol.low
      simp only [decide_eq_true_eq] at hgo
      linarith
  · rw [if_neg (not_le.mpr hlow), if_pos hhigh]
    obtain ⟨i, hi, hle, hpass, hstop⟩ := @probeBack_skip _
      (fun c : Connection β => decide (c.l2ConnTS > target.l2ConnTS + timeRange)) candidateList
      (idx + 1) hidx
    simp only [hi]
    refine searched_back hsorted (hle.trans hidx) hne (fun k hk => by omega) ?_ ?_ rfl
    · intro k d hk hd
      have hx : candidateList[i - 1]? = some candidateList[i - 1] :=
        List.getElem?_eq_getElem (by omega)
      have hord := hsorted.le (by omega) hd hx
      have hgo := hstop _ (by omega) hx
      simp only [gt_iff_lt, decide_eq_false_iff_not, not_lt] at hgo
      linarith
    · intro k d hk hki hd hcol
      have hgo := hpass k d hki (by omega) hd
      have hch := hcol.high
      simp only [gt_iff_lt, decide_eq_true_eq] at hgo
      linarith
  · rw [if_neg (not_le.mpr hlow), if_neg (not_le.mpr hhigh)]
    generalize hrb : probeBack (fun c => decide (c.l2ConnTS ≥ target.l2ConnTS - timeRange))
      (fun c => decide (target.l2Bssid = c.l2Bssid)) candidateList (idx + 1) = rb
    have hback : Searched target candidateList timeRange (· ≤ idx) (rb.1, clampBack rb.2) := by
      refine searched_back hsorted hidx hne (fun k hk => by omega) (fun k d hk hd => ?_)
        (fun k d hk hki => by omega) hrb
      exact (hsorted.le (by omega) hd hc).trans hhigh.le
    obtain ⟨found, i⟩ := rb
    cases found with
    | true =>
      obtain ⟨c', hc', -, hcol⟩ := hback.sound rfl
      exact ⟨hback.inRange, fun _ => ⟨c', hc', trivial, hcol⟩, by simp⟩
    | false =>
      refine searched_forward hsorted hidx.le hne (fun _ _ => trivial) (fun k d hk hd => ?_)
        (fun k d _ hk hd => hback.complete rfl k d hk.le hd) rfl
      exact hlow.le.trans (hsorted.le hk hc hd)

omit [DecidableEq β] in
/-- A search that has looked at all indices with `P` is right if it need not look at others. -/
theorem Searched.correct_iff {P : Nat → Prop} {r : Bool × Nat}
    (h : Searched target candidateList timeRange P r) :
    Correct target candidateList timeRange r ↔
      ∀ k d, ¬P k → candidateList[k]? = some d → Collides target timeRange d →
        ∃ k' d', P k' ∧ candidateList[k']? = some d' ∧ Collides target timeRange d' := by
  constructor
  · intro hcorrect k d _ hd hcol
    obtain ⟨c, hc, hP, hcol'⟩ :=
      h.sound (hcorrect.complete ⟨d, List.mem_of_getElem? hd, hcol⟩)
    exact ⟨r.2, c, hP, hc, hcol'⟩
  · intro hothers
    refine ⟨h.inRange, fun hr => ?_, ?_⟩
    · obtain ⟨c, hc, -, hcol⟩ := h.sound hr
      exact ⟨c, hc, hcol⟩
    · rintro ⟨c, hmem, hcol⟩
      by_contra hr
      have hnone := h.complete (by simpa using hr)
      obtain ⟨k, hk⟩ := List.getElem?_of_mem hmem
      by_cases hPk : P k
      · exact hnone k c hPk hk hcol
      · obtain ⟨k', d', hPk', hd', hcol'⟩ := hothers k c hPk hk hcol
        exact hnone k' d' hPk' hd' hcol'

/-- One search is right iff it does not miss a tie. -/
theorem findCollision_correct_iff (hsorted : SortedByStart candidateList) (hrange : 0 ≤ timeRange)
    (hidx : idx < candidateList.length) :
    ∃ r, findCollision target candidateList idx timeRange = some r ∧
      r.2 < candidateList.length ∧
      (Correct target candidateList timeRange r ↔
        ¬MissesTie target candidateList idx timeRange) := by
  have hc : candidateList[idx]? = some candidateList[idx] := List.getElem?_eq_getElem hidx
  generalize candidateList[idx] = c at hc
  obtain ⟨r, hr, hforward, hback, hboth⟩ :=
    @findCollision_searched _ _ target _ _ timeRange hsorted _ hc
  refine ⟨r, hr, ?_⟩
  by_cases hlow : c.l2ConnTS ≤ target.l2ConnTS - timeRange
  · have hsearched := hforward hlow
    refine ⟨hsearched.inRange,
      hsearched.correct_iff.trans ⟨?_, fun hmiss k d hk hd hcol => ?_⟩⟩
    · rintro hothers ⟨c', hc',
        ⟨heq, ⟨k, d, hk, hd, htie, hbssid⟩, hnone⟩ | ⟨heq, hpos, -⟩⟩
      · obtain rfl : c = c' := Option.some.inj (hc.symm.trans hc')
        have hcol : Collides target timeRange d := ⟨hbssid, by linarith, by linarith⟩
        obtain ⟨k', d', hk', hd', hcol'⟩ := hothers k d (not_le.mpr hk) hd hcol
        exact hnone k' d' hk' hd' hcol'
      · obtain rfl : c = c' := Option.some.inj (hc.symm.trans hc')
        linarith
    · have hord := hsorted.le (not_le.mp hk).le hd hc
      have hcl := hcol.low
      by_contra hnone
      push Not at hnone
      refine hmiss ⟨c, hc,
        .inl ⟨by linarith, ⟨k, d, not_le.mp hk, hd, by linarith, hcol.bssid⟩, ?_⟩⟩
      exact fun k' d' hk' => hnone k' d' hk'
  · by_cases hhigh : c.l2ConnTS < target.l2ConnTS + timeRange
    · have hsearched := hboth (not_le.mp hlow) hhigh
      refine ⟨hsearched.inRange, hsearched.correct_iff.trans (iff_of_true (by simp) ?_)⟩
      rintro ⟨c', hc', ⟨heq, -⟩ | ⟨heq, -⟩⟩
      · obtain rfl : c = c' := Option.some.inj (hc.symm.trans hc')
        exact hlow heq.le
      · obtain rfl : c = c' := Option.some.inj (hc.symm.trans hc')
        exact hhigh.ne heq
    · have hsearched := hback (not_le.mp hlow) (not_lt.mp hhigh)
      refine ⟨hsearched.inRange,
        hsearched.correct_iff.trans ⟨?_, fun hmiss k d hk hd hcol => ?_⟩⟩
      · rintro hothers ⟨c', hc',
          ⟨heq, -⟩ | ⟨heq, hpos, ⟨k, d, hk, hd, htie, hbssid⟩, hnone⟩⟩
        · obtain rfl : c = c' := Option.some.inj (hc.symm.trans hc')
          exact hlow heq.le
        · obtain rfl : c = c' := Option.some.inj (hc.symm.trans hc')
          have hcol : Collides target timeRange d := ⟨hbssid, by linarith, by linarith⟩
          obtain ⟨k', d', hk', hd', hcol'⟩ := hothers k d (not_le.mpr hk) hd hcol
          exact hnone k' d' hk' hd' hcol'
      · have hord := hsorted.le (not_le.mp hk).le hc hd
        have hch := hcol.high
        by_contra hnone
        push Not at hnone
        refine hmiss ⟨c, hc, .inr ⟨by linarith, by linarith,
          ⟨k, d, not_le.mp hk, hd, by linarith, hcol.bssid⟩, ?_⟩⟩
        exact fun k' d' hk' => hnone k' d' hk'

/-- Every search of a sequence is right iff none misses a tie. -/
theorem findCollisions_correct_iff (candidateList : List (Connection β))
    (timeRange : ℚ) (idx : Nat) (targets : List (Connection β))
    (hsorted : SortedByStart candidateList) (hrange : 0 ≤ timeRange)
    (hidx : idx < candidateList.length) :
    List.Forall₂ (fun target r => Correct target candidateList timeRange r) targets
        (findCollisions candidateList timeRange idx targets) ↔
      NeverMissesTie candidateList timeRange idx targets := by
  induction targets generalizing idx with
  | nil => simp [findCollisions, NeverMissesTie]
  | cons target targets ih =>
    obtain ⟨r, hr, hin, hcorrect⟩ :=
      @findCollision_correct_iff _ _ target _ _ timeRange hsorted hrange hidx
    rw [findCollisions, NeverMissesTie, hr]
    simp only [List.forall₂_cons, hcorrect, ih r.2 hin, Option.mem_def, Option.some.injEq,
      forall_eq']

end Search

theorem not_missesTie {target c : Connection β} {candidateList : List (Connection β)} {idx : Nat}
    {timeRange : ℚ} (hc : candidateList[idx]? = some c)
    (hlow : c.l2ConnTS ≠ target.l2ConnTS - timeRange)
    (hhigh : c.l2ConnTS ≠ target.l2ConnTS + timeRange) :
    ¬MissesTie target candidateList idx timeRange := by
  rintro ⟨c', hc', ⟨heq, -⟩ | ⟨heq, -⟩⟩
  · obtain rfl : c = c' := Option.some.inj (hc.symm.trans hc')
    exact hlow heq
  · obtain rfl : c = c' := Option.some.inj (hc.symm.trans hc')
    exact hhigh heq

theorem findCollisions_twice :
    List.Forall₂ (fun target r => Correct target [⟨0, 1⟩, ⟨5, 2⟩, ⟨30, 3⟩] 10 r)
      [⟨4, 1⟩, ⟨25, 3⟩]
      (findCollisions [⟨0, 1⟩, ⟨5, 2⟩, ⟨30, 3⟩] 10 0
        [(⟨4, 1⟩ : Connection Nat), ⟨25, 3⟩]) := by
  have hfirst : findCollision (⟨4, 1⟩ : Connection Nat)
      [⟨0, 1⟩, ⟨5, 2⟩, ⟨30, 3⟩] 0 10 = some (true, 0) := by decide +kernel
  have hsorted : SortedByStart [(⟨0, 1⟩ : Connection Nat), ⟨5, 2⟩, ⟨30, 3⟩] := by
    unfold SortedByStart
    decide +kernel
  refine (findCollisions_correct_iff _ 10 0 [⟨4, 1⟩, ⟨25, 3⟩] hsorted (by decide +kernel)
    (by decide)).mpr ⟨?_, ?_⟩
  · exact not_missesTie rfl (by decide +kernel) (by decide +kernel)
  · rw [hfirst]
    rintro r ⟨⟩
    exact ⟨not_missesTie rfl (by decide +kernel) (by decide +kernel), fun _ _ => trivial⟩

/-- Both candidates are on the edge of the range, and the search looks at the second only. -/
theorem tie_missed :
    findCollision (⟨10, 1⟩ : Connection Nat) [⟨0, 1⟩, ⟨0, 2⟩] 1 10 = some (false, 1) ∧
      Collides (⟨10, 1⟩ : Connection Nat) 10 ⟨0, 1⟩ :=
  ⟨by decide +kernel, rfl, by decide +kernel, by decide +kernel⟩

end CarFi.Analyzer

import Mathlib.Algebra.Order.Ring.Abs
import Mathlib.Data.List.ReduceOption
import Mathlib.Tactic.Linarith
import CarFi.Analyzer.GpsGrid
import CarFi.Library.KeySort

/-!
# Access points on the GPS track

`get_coord_list_for_ap` of `analyzer/gpsmap.py` goes through the access points by the time they were
first seen, and through the GPS points of the same period with one pointer that only moves forward.
The pointer skips the points more than a second before the access point, and the point it stops at
is taken if it is less than a second away. A point that is exactly a second early stops the pointer
and is not taken, and at the end of the track the pointer runs over the end of the list. The access
points are those of several SSIDs, and an SSID without any is an error.
-/
namespace CarFi.Analyzer

open Library

/-- `GPS` -/
structure GpsFix extends Coord where
  time : ℚ
  deriving DecidableEq, Repr

/-- An access point: `bssid` and the time it was first seen. -/
structure SeenAp (β : Type*) where
  bssid : β
  time : ℚ
  deriving DecidableEq

variable {β : Type*}

/-- The inner loop, from the pointer on: the point it stops at and the rest of the list from there.
-/
def seekFix (t : ℚ) : List GpsFix → Except PyError (GpsFix × List GpsFix)
  | [] => .error .indexError
  | g :: rest => if g.time - t < -1 then seekFix t rest else .ok (g, g :: rest)

/-- The loop over the access points, with the GPS points from the pointer on. -/
def matchAps : List (SeenAp β) → List GpsFix → Except PyError (List GpsFix)
  | [], _ => .ok []
  | ap :: aps, rest => do
    let (g, rest) ← seekFix ap.time rest
    let out ← matchAps aps rest
    return if |g.time - ap.time| < 1 then g :: out else out

def sortByTime (aps : List (SeenAp β)) : List (SeenAp β) := sortBy SeenAp.time aps

/-- The query for the points of a period, in the order of time. -/
def gpsBetween (table : List GpsFix) (minTime maxTime : ℚ) : List GpsFix :=
  sortBy GpsFix.time (table.filter fun g => minTime ≤ g.time ∧ g.time ≤ maxTime)

/-- The loop over the SSIDs, with what the query returns for each. The first access point of each is
printed. -/
def collectAps : List (List (SeenAp β)) → List (SeenAp β) → Except PyError (List (SeenAp β))
  | [], distinctAps => .ok distinctAps
  | [] :: _, _ => .error .indexError
  | (ap :: temp) :: temps, distinctAps => collectAps temps (distinctAps ++ ap :: temp)

/-- `get_coord_list_for_ap`, with what the queries for the SSIDs return. -/
def getCoordListForAp (temps : List (List (SeenAp β))) (table : List GpsFix) :
    Except PyError (List GpsFix) :=
  match collectAps temps [] with
  | .error e => .error e
  | .ok distinctAps =>
    let aps := sortByTime distinctAps
    match aps.head?, aps.getLast? with
    | some first, some last => matchAps aps (gpsBetween table first.time last.time)
    | _, _ => .error .indexError

/-! ## The access points -/

theorem collectAps_of_mem {temps : List (List (SeenAp β))} (h : [] ∈ temps)
    (distinctAps : List (SeenAp β)) : collectAps temps distinctAps = .error .indexError := by
  fun_induction collectAps temps distinctAps with
  | case1 distinctAps => cases h
  | case2 temps distinctAps => rfl
  | case3 distinctAps ap temp temps ih => exact ih (by simpa using h)

theorem collectAps_of_notMem {temps : List (List (SeenAp β))} (h : [] ∉ temps)
    (distinctAps : List (SeenAp β)) :
    collectAps temps distinctAps = .ok (distinctAps ++ temps.flatten) := by
  fun_induction collectAps temps distinctAps with
  | case1 distinctAps => simp
  | case2 temps distinctAps => simp at h
  | case3 distinctAps ap temp temps ih =>
    rw [ih (by simpa using h), List.flatten_cons, List.append_assoc]

/-! ## The pointer -/

/-- The point at which the pointer stops for an access point. -/
def firstFix (gps : List GpsFix) (t : ℚ) : Option GpsFix := gps.find? fun g => t - 1 ≤ g.time

/-- The point that is taken. -/
def takenFix (gps : List GpsFix) (ap : SeenAp β) : Option GpsFix :=
  (firstFix gps ap.time).filter fun g => |g.time - ap.time| < 1

theorem seekFix_eq (t : ℚ) (rest : List GpsFix) :
    seekFix t rest =
      match firstFix rest t with
      | none => .error .indexError
      | some g => .ok (g, rest.dropWhile fun g => g.time - t < -1) := by
  induction rest with
  | nil => rfl
  | cons g rest ih =>
    rw [seekFix, firstFix, List.find?_cons]
    by_cases h : g.time - t < -1
    · have hnot : ¬t - 1 ≤ g.time := by linarith
      rw [if_pos h, ih, decide_eq_false hnot, List.dropWhile_cons_of_pos (by simpa using h)]
      rfl
    · have hle : t - 1 ≤ g.time := by linarith
      rw [if_neg h, decide_eq_true hle, List.dropWhile_cons_of_neg (by simpa using h)]

/-- The pointer never skips a point that a later access point needs: what it has passed is too
early for all of them. -/
theorem matchAps_eq {aps : List (SeenAp β)} (hsorted : aps.Pairwise fun a b => a.time ≤ b.time)
    (passed rest : List GpsFix) (hpassed : ∀ g ∈ passed, ∀ ap ∈ aps, g.time < ap.time - 1) :
    matchAps aps rest =
      if ∀ ap ∈ aps, (firstFix (passed ++ rest) ap.time).isSome then
        .ok (aps.filterMap (takenFix (passed ++ rest)))
      else .error .indexError := by
  induction aps generalizing passed rest with
  | nil => simp [matchAps]
  | cons ap aps ih =>
    obtain ⟨hap, hsorted⟩ := List.pairwise_cons.mp hsorted
    have hfind : firstFix (passed ++ rest) ap.time = firstFix rest ap.time := by
      have hnone : firstFix passed ap.time = none := by
        rw [firstFix, List.find?_eq_none]
        intro g hg
        have := hpassed g hg ap (by simp)
        rw [decide_eq_true_iff]
        linarith
      rw [firstFix, List.find?_append]
      change (firstFix passed ap.time).or _ = _
      rw [hnone, Option.none_or]
      rfl
    rw [matchAps, seekFix_eq]
    cases hg : firstFix rest ap.time with
    | none =>
      have hnot : ¬∀ a ∈ ap :: aps, (firstFix (passed ++ rest) a.time).isSome := fun h => by
        have := h ap (by simp)
        rw [hfind, hg] at this
        cases this
      rw [if_neg hnot]
      rfl
    | some g =>
      set skipped := rest.takeWhile fun g => g.time - ap.time < -1 with hskipped
      set rest' := rest.dropWhile fun g => g.time - ap.time < -1 with hrest'
      have hsplit : passed ++ rest = (passed ++ skipped) ++ rest' := by
        rw [List.append_assoc, List.takeWhile_append_dropWhile]
      have hpassed' : ∀ g ∈ passed ++ skipped, ∀ a ∈ aps, g.time < a.time - 1 := by
        intro g hg a ha
        have hle := hap a ha
        rcases List.mem_append.mp hg with hg | hg
        · have := hpassed g hg ap (by simp)
          linarith
        · have := List.mem_takeWhile_imp hg
          rw [decide_eq_true_iff] at this
          linarith
      have hrun := ih hsorted (passed ++ skipped) rest' hpassed'
      rw [← hsplit] at hrun
      have hhead : (firstFix (passed ++ rest) ap.time).isSome := by rw [hfind, hg]; rfl
      by_cases hall : ∀ a ∈ aps, (firstFix (passed ++ rest) a.time).isSome
      · rw [if_pos hall] at hrun
        have hcons : ∀ a ∈ ap :: aps, (firstFix (passed ++ rest) a.time).isSome :=
          List.forall_mem_cons.mpr ⟨hhead, hall⟩
        rw [if_pos hcons, List.filterMap_cons, takenFix, hfind, hg]
        simp only [bind, Except.bind, hrun, pure, Except.pure, Option.filter]
        by_cases hnear : |g.time - ap.time| < 1 <;> simp [hnear]
      · rw [if_neg hall] at hrun
        rw [if_neg fun h => hall (List.forall_mem_cons.mp h).2]
        simp only [bind, Except.bind, hrun]

/-! ## Points near an access point -/

/-- The point lies in the period of the access points. -/
def GpsFix.Within (aps : List (SeenAp β)) (g : GpsFix) : Prop :=
  (∃ ap ∈ aps, ap.time ≤ g.time) ∧ ∃ ap ∈ aps, g.time ≤ ap.time

instance (aps : List (SeenAp β)) (g : GpsFix) : Decidable (g.Within aps) :=
  inferInstanceAs (Decidable (_ ∧ _))

/-- The GPS points of the period. -/
def trackOf (aps : List (SeenAp β)) (table : List GpsFix) : List GpsFix :=
  table.filter fun g => g.Within aps

/-- Less than a second lies between the access point and the GPS point. -/
def FixNear (ap : SeenAp β) (g : GpsFix) : Prop := |g.time - ap.time| < 1

instance (ap : SeenAp β) (g : GpsFix) : Decidable (FixNear ap g) :=
  inferInstanceAs (Decidable (_ < _))

/-- What an access point should get: a point near it, if there is one. -/
def IsNearFix (gps : List GpsFix) (ap : SeenAp β) (m : Option GpsFix) : Prop :=
  ((∃ g ∈ gps, FixNear ap g) → m ≠ none) ∧ ∀ g ∈ m, g ∈ gps ∧ FixNear ap g

/-- Every access point with a GPS point near it gets one of them, and no other access point gets
one; nothing is raised. -/
def AssignsNear (aps : List (SeenAp β)) (gps : List GpsFix) (r : Except PyError (List GpsFix)) :
    Prop :=
  ∃ found : List (Option GpsFix), r = .ok found.reduceOption ∧
    List.Forall₂ (IsNearFix gps) aps found

theorem takenFix_near {gps : List GpsFix} {ap : SeenAp β} {g : GpsFix}
    (h : takenFix gps ap = some g) : g ∈ gps ∧ FixNear ap g := by
  obtain ⟨hfirst, hnear⟩ := Option.filter_eq_some_iff.mp h
  exact ⟨List.mem_of_find?_eq_some hfirst, decide_eq_true_iff.mp hnear⟩

/-- In a sorted list the pointer stops at or before every point that is near, so it takes one
unless it stops exactly a second early. -/
theorem takenFix_eq_none {gps : List GpsFix} (hsorted : gps.Pairwise fun a b => a.time ≤ b.time)
    {ap : SeenAp β} (hnear : ∃ g ∈ gps, FixNear ap g) :
    takenFix gps ap = none ↔ ∃ g ∈ gps, g.time = ap.time - 1 := by
  obtain ⟨g', hg', hnear⟩ := hnear
  obtain ⟨hlo, hhi⟩ := abs_lt.mp hnear
  obtain ⟨g, hg⟩ : ∃ g, firstFix gps ap.time = some g := by
    rw [← Option.isSome_iff_exists, firstFix, List.find?_isSome]
    exact ⟨g', hg', decide_eq_true (by linarith)⟩
  obtain ⟨hge, pre, post, rfl, hpre⟩ := List.find?_eq_some_iff_append.mp hg
  rw [decide_eq_true_iff] at hge
  -- the first point from a second before on is not after any such point
  have hle : ∀ a ∈ pre ++ g :: post, ap.time - 1 ≤ a.time → g.time ≤ a.time := by
    intro a ha hale
    rcases List.mem_append.mp ha with ha | ha
    · have := hpre a ha
      simp only [Bool.not_eq_true', decide_eq_false_iff_not] at this
      exact absurd hale this
    · rcases List.mem_cons.mp ha with rfl | ha
      · exact le_refl _
      · exact (List.pairwise_cons.mp (List.pairwise_append.mp hsorted).2.1).1 a ha
  have hg'le := hle g' hg' (by linarith)
  rw [takenFix, hg, Option.filter_eq_none_iff]
  constructor
  · intro h
    have hfar : ¬|g.time - ap.time| < 1 := by simpa using h g rfl
    refine ⟨g, by simp, ?_⟩
    by_contra hne
    have hlt : ap.time - 1 < g.time := lt_of_le_of_ne hge (Ne.symm hne)
    exact hfar (abs_lt.mpr ⟨by linarith, by linarith⟩)
  · rintro ⟨a, ha, haeq⟩ b hb
    obtain rfl : g = b := Option.some.inj hb
    have hga := hle a ha haeq.ge
    have hgeq : g.time - ap.time = -1 := by linarith
    rw [decide_eq_true_iff, hgeq, abs_neg, abs_one]
    exact lt_irrefl 1

/-- No point that is a second early hides one that is near, and the track goes on long enough for
all access points. -/
def TrackFits (aps : List (SeenAp β)) (gps : List GpsFix) : Prop :=
  (∀ ap ∈ aps, ∃ g ∈ gps, ap.time - 1 ≤ g.time) ∧
    ∀ ap ∈ aps, (∃ g ∈ gps, g.time = ap.time - 1) → ¬∃ g ∈ gps, FixNear ap g

/-- The code takes no more points than it should, and fewer if it misses one. -/
theorem length_taken {aps : List (SeenAp β)} {gps : List GpsFix} {found : List (Option GpsFix)}
    (h : List.Forall₂ (IsNearFix gps) aps found) :
    (aps.filterMap (takenFix gps)).length ≤ found.reduceOption.length ∧
      ((aps.filterMap (takenFix gps)).length = found.reduceOption.length →
        ∀ ap ∈ aps, (∃ g ∈ gps, FixNear ap g) → takenFix gps ap ≠ none) := by
  induction h with
  | nil => simp
  | @cons ap m aps found hm _ ih =>
    obtain ⟨hle, hall⟩ := ih
    rw [List.forall_mem_cons]
    cases m with
    | none =>
      have hfar : ¬∃ g ∈ gps, FixNear ap g := fun hnear => hm.1 hnear rfl
      have hnone : takenFix gps ap = none := by
        rw [Option.eq_none_iff_forall_ne_some]
        exact fun g hg => hfar ⟨g, takenFix_near hg⟩
      rw [List.filterMap_cons_none hnone, List.reduceOption_cons_of_none]
      exact ⟨hle, fun hlen => ⟨fun hnear => absurd hnear hfar, hall hlen⟩⟩
    | some g =>
      rw [List.reduceOption_cons_of_some, List.length_cons]
      cases htaken : takenFix gps ap with
      | none =>
        rw [List.filterMap_cons_none htaken]
        exact ⟨by omega, fun hlen => absurd hlen (by omega)⟩
      | some g' =>
        rw [List.filterMap_cons_some htaken, List.length_cons]
        exact ⟨by omega, fun hlen => ⟨fun _ => by simp, hall (by omega)⟩⟩

theorem assignsNear_iff {aps : List (SeenAp β)} {gps : List GpsFix}
    (haps : aps.Pairwise fun a b => a.time ≤ b.time)
    (hgps : gps.Pairwise fun a b => a.time ≤ b.time) :
    AssignsNear aps gps (matchAps aps gps) ↔ TrackFits aps gps := by
  have hrun := matchAps_eq haps [] gps (by simp)
  rw [List.nil_append] at hrun
  have hsome : (∀ ap ∈ aps, (firstFix gps ap.time).isSome) ↔
      ∀ ap ∈ aps, ∃ g ∈ gps, ap.time - 1 ≤ g.time := by
    simp [firstFix, List.find?_isSome]
  rw [AssignsNear, TrackFits, hrun, ← hsome]
  constructor
  · rintro ⟨found, hok, hfound⟩
    split_ifs at hok with hall
    refine ⟨hall, fun ap hap hearly hnear => ?_⟩
    have hlen := congrArg List.length (Except.ok.inj hok)
    exact (length_taken hfound).2 hlen ap hap hnear ((takenFix_eq_none hgps hnear).mpr hearly)
  · rintro ⟨hall, hhide⟩
    refine ⟨aps.map (takenFix gps), ?_, ?_⟩
    · rw [if_pos hall, List.reduceOption, List.filterMap_map]
      rfl
    · rw [List.forall₂_map_right_iff, List.forall₂_same]
      intro ap hap
      refine ⟨fun hnear hnone => ?_, fun g hg => takenFix_near hg⟩
      exact hhide ap hap ((takenFix_eq_none hgps hnear).mp hnone) hnear

/-- The period of the query is the one of the access points. -/
theorem gpsBetween_perm {aps : List (SeenAp β)} {first last : SeenAp β}
    (hfirst : (sortByTime aps).head? = some first) (hlast : (sortByTime aps).getLast? = some last)
    (table : List GpsFix) : (gpsBetween table first.time last.time).Perm (trackOf aps table) := by
  have hperm : (sortByTime aps).Perm aps := sortBy_perm _ aps
  have hwithin : ∀ g : GpsFix, g.Within aps ↔ first.time ≤ g.time ∧
      g.time ≤ last.time := by
    intro g
    have hlo : ∀ ap ∈ aps, first.time ≤ ap.time := fun ap hap =>
      (key_le_of_sortBy SeenAp.time hap).1 first hfirst
    have hhi : ∀ ap ∈ aps, ap.time ≤ last.time := fun ap hap =>
      (key_le_of_sortBy SeenAp.time hap).2 last hlast
    have hfirst : first ∈ aps := hperm.mem_iff.mp (List.mem_of_mem_head? hfirst)
    have hlast : last ∈ aps := hperm.mem_iff.mp (List.mem_of_mem_getLast? hlast)
    constructor
    · rintro ⟨⟨ap, hap, hle⟩, ap', hap', hle'⟩
      exact ⟨(hlo ap hap).trans hle, hle'.trans (hhi ap' hap')⟩
    · rintro ⟨hle, hle'⟩
      exact ⟨⟨first, hfirst, hle⟩, last, hlast, hle'⟩
  refine (sortBy_perm _ _).trans (.of_eq ?_)
  rw [trackOf]
  refine List.filter_congr fun g _ => ?_
  rw [decide_eq_decide]
  exact (hwithin g).symm

/-- From the access points on, the list of coordinates is right exactly for the tracks that fit. -/
theorem sortedAps_iff {distinctAps : List (SeenAp β)} (table : List GpsFix)
    {first last : SeenAp β} (hfirst : (sortByTime distinctAps).head? = some first)
    (hlast : (sortByTime distinctAps).getLast? = some last) :
    AssignsNear (sortByTime distinctAps) (trackOf distinctAps table)
        (matchAps (sortByTime distinctAps) (gpsBetween table first.time last.time)) ↔
      TrackFits distinctAps (trackOf distinctAps table) := by
  have hperm : (sortByTime distinctAps).Perm distinctAps := sortBy_perm _ _
  have hgps := gpsBetween_perm hfirst hlast table
  have hrun := assignsNear_iff (sortBy_pairwise SeenAp.time distinctAps)
    (sortBy_pairwise GpsFix.time
      (table.filter fun g => first.time ≤ g.time ∧ g.time ≤ last.time))
  change AssignsNear (sortByTime distinctAps) (gpsBetween table first.time last.time)
    (matchAps (sortByTime distinctAps) (gpsBetween table first.time last.time)) ↔
    TrackFits (sortByTime distinctAps) (gpsBetween table first.time last.time) at hrun
  have hfix : (IsNearFix (gpsBetween table first.time last.time) : SeenAp β → _ → Prop) =
      IsNearFix (trackOf distinctAps table) := by
    funext ap m
    simp only [IsNearFix, hgps.mem_iff]
  simp only [AssignsNear, TrackFits, hfix, hgps.mem_iff, hperm.mem_iff] at hrun ⊢
  exact hrun

/-- The list of coordinates is right exactly if every SSID has an access point and the track fits
all of them. -/
theorem coordList_iff (temps : List (List (SeenAp β))) (hne : temps.flatten ≠ [])
    (table : List GpsFix) :
    AssignsNear (sortByTime temps.flatten) (trackOf temps.flatten table)
        (getCoordListForAp temps table) ↔
      (∀ temp ∈ temps, temp ≠ []) ∧
      TrackFits temps.flatten (trackOf temps.flatten table) := by
  have hempty : (∀ temp ∈ temps, temp ≠ []) ↔ [] ∉ temps :=
    ⟨fun h hmem => h [] hmem rfl, fun h temp htemp hnil => h (hnil ▸ htemp)⟩
  rw [getCoordListForAp, hempty]
  by_cases hmem : [] ∈ temps
  · simp [collectAps_of_mem hmem, AssignsNear, hmem]
  · have hne' : sortByTime temps.flatten ≠ [] := fun h =>
      hne (h ▸ sortBy_perm SeenAp.time temps.flatten : [].Perm temps.flatten).nil_eq.symm
    obtain ⟨first, hfirst⟩ : ∃ a, (sortByTime temps.flatten).head? = some a :=
      Option.isSome_iff_exists.mp (by simpa using hne')
    obtain ⟨last, hlast⟩ : ∃ a, (sortByTime temps.flatten).getLast? = some a :=
      Option.isSome_iff_exists.mp (by simpa using hne')
    simp only [collectAps_of_notMem hmem, List.nil_append, hfirst, hlast]
    rw [sortedAps_iff table hfirst hlast]
    exact (and_iff_right hmem).symm

/-- A GPS point of the time given. -/
def fixAt (time : ℚ) : GpsFix := { latitude := 48, longitude := 2, time }

theorem coordList_iff_two :
    AssignsNear (sortByTime [⟨1, 10⟩, ⟨2, 12⟩])
      (trackOf [⟨1, 10⟩, ⟨2, 12⟩] [fixAt 10, fixAt 12])
      (getCoordListForAp [[⟨1, 10⟩], [⟨2, 12⟩]] [fixAt 10, fixAt 12]) := by
  refine (coordList_iff [[(⟨1, 10⟩ : SeenAp Nat)], [⟨2, 12⟩]] (by simp)
    [fixAt 10, fixAt 12]).mpr ⟨by simp, ?_⟩
  unfold TrackFits
  decide +kernel

/-- The point at 11 stops the pointer for the access point of 12, and the point at 12 is missed. -/
theorem early_fix_hides_near : ¬AssignsNear (sortByTime [⟨1, 10⟩, ⟨2, 12⟩])
    (trackOf [⟨1, 10⟩, ⟨2, 12⟩] [fixAt 11, fixAt 12])
    (getCoordListForAp [[(⟨1, 10⟩ : SeenAp Nat), ⟨2, 12⟩]] [fixAt 11, fixAt 12]) := by
  have hsort : sortByTime [(⟨1, 10⟩ : SeenAp Nat), ⟨2, 12⟩] =
      [⟨1, 10⟩, ⟨2, 12⟩] := by
    decide +kernel
  have hout : (getCoordListForAp [[(⟨1, 10⟩ : SeenAp Nat), ⟨2, 12⟩]]
      [fixAt 11, fixAt 12]).toOption = some [] := by
    decide +kernel
  have hnear : ∃ g ∈ trackOf [(⟨1, 10⟩ : SeenAp Nat), ⟨2, 12⟩] [fixAt 11, fixAt 12],
      FixNear (⟨2, 12⟩ : SeenAp Nat) g := by
    decide +kernel
  rw [hsort]
  rintro ⟨found, hok, hfound⟩
  rw [hok] at hout
  cases hfound with
  | cons _ hrest =>
    cases hrest with
    | @cons _ m _ _ hm _ =>
      cases m with
      | none => exact hm.1 hnear rfl
      | some g =>
        have hmem : g ∈ ([] : List GpsFix) := by
          rw [← Option.some.inj hout, List.reduceOption_mem_iff]
          simp
        cases hmem

end CarFi.Analyzer

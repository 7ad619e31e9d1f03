import Mathlib.Algebra.Order.Field.Rat
import Mathlib.Data.List.ModifyLast
import Mathlib.Tactic.Linarith
import CarFi.Library.Runs

/-!
# Trips

`analyzer/plotter.py` joins experiments to trips: an experiment that starts at most a threshold
after the end of the last trip extends it. The end of a trip is the end of the experiment that came
last, also if an earlier one goes on for longer.
-/
namespace CarFi.Analyzer

open Library

/-- The interval of an experiment or of a trip. -/
structure Span where
  startTime : ℚ
  endTime : ℚ
  deriving DecidableEq, Repr

/-- One turn of the loop over the experiments. -/
def tripStep (gap : ℚ) (trips : List Span) (exp : Span) : List Span :=
  match trips.getLast? with
  | none => trips ++ [exp]
  | some trip =>
    if exp.startTime - trip.endTime ≤ gap then
      trips.modifyLast fun trip => { trip with endTime := exp.endTime }
    else trips ++ [exp]

/-- The trips of experiments that are ordered by their start. -/
def tripsOf (gap : ℚ) (exps : List Span) : List Span := exps.foldl (tripStep gap) []

/-- The trips of `get_inter_ap_duration_cdf` -/
def getInterApDurationTrips (exps : List Span) : List Span := tripsOf 30 exps

/-- The trips of `plot_ip_changing` -/
def plotIpChangingTrips (exps : List Span) : List Span := tripsOf 300 exps

/-! ## Runs of experiments -/

/-- The next experiment starts soon enough after this one. -/
def Span.follows (gap : ℚ) (exp next : Span) : Bool := next.startTime - exp.endTime ≤ gap

/-- The trip of a run of experiments: from the start of the first one to the end of the last. -/
def runTrip (ends : Span × Span) : Span := ⟨ends.1.startTime, ends.2.endTime⟩

/-- The last trip ends with the last experiment, so the trips are those of the maximal runs. -/
theorem tripsOf_eq (gap : ℚ) (exps : List Span) :
    tripsOf gap exps = (runEnds (Span.follows gap) exps).map runTrip := by
  -- the trips are told by the runs so far
  let Inv (init : List (Span × Span)) (first last : Span) (trips : List Span) : Prop :=
    trips = (init ++ [(first, last)]).map runTrip
  have hextend : ∀ init first b a trips, True → Span.follows gap b a = true →
      Inv init first b trips → Inv init first a (tripStep gap trips a) := by
    rintro init first b a _ - hr rfl
    rw [List.map_append, List.map_singleton, tripStep, List.getLast?_concat]
    exact (if_pos (decide_eq_true_iff.mp hr)).trans (by simp [runTrip, List.modifyLast_concat])
  have hfresh : ∀ init first b a trips, True → Span.follows gap b a = false →
      Inv init first b trips → Inv (init ++ [(first, b)]) a a (tripStep gap trips a) := by
    rintro init first b a _ - hr rfl
    rw [List.map_append, List.map_singleton, tripStep, List.getLast?_concat]
    exact (if_neg (decide_eq_false_iff_not.mp hr)).trans (by simp [runTrip])
  rcases List.eq_nil_or_concat' exps with rfl | ⟨exps, last, rfl⟩
  · rfl
  · obtain ⟨init, first, hends, htrips⟩ :=
      foldl_runEnds (fun _ => True) Inv (fun a _ => show tripStep gap [] a = _ from rfl)
        hextend hfresh (l := exps) (b := last) fun _ _ => trivial
    rw [hends]
    exact htrips

/-- A longer gap joins more: `plot_ip_changing` has no more trips than `get_inter_ap_duration_cdf`.
-/
theorem length_plotIpChangingTrips_le (exps : List Span) :
    (plotIpChangingTrips exps).length ≤ (getInterApDurationTrips exps).length := by
  rw [plotIpChangingTrips, getInterApDurationTrips, tripsOf_eq, tripsOf_eq, List.length_map,
    List.length_map, length_runEnds, length_runEnds]
  rcases eq_or_ne exps [] with rfl | hne
  · rfl
  · rw [length_splitBy _ hne, length_splitBy _ hne]
    refine Nat.add_le_add_right (List.countP_mono_left fun p _ hp => ?_) 1
    simp only [Span.follows, Bool.not_eq_true', decide_eq_false_iff_not, not_le] at hp ⊢
    linarith

/-! ## Separation -/

/-- More than the threshold lies between the trips. -/
def Apart (gap : ℚ) (t u : Span) : Prop := gap < u.startTime - t.endTime

/-- The trips so far, with the experiments that are left. -/
structure TripsOk (gap : ℚ) (rest trips : List Span) : Prop where
  forward : ∀ t ∈ trips, t.startTime ≤ t.endTime
  apart : trips.Pairwise (Apart gap)
  early : ∀ t ∈ trips, ∀ e ∈ rest, t.startTime ≤ e.startTime

theorem TripsOk.step {gap : ℚ} {exp : Span} {rest trips : List Span}
    (h : TripsOk gap (exp :: rest) trips) (hexp : exp.startTime ≤ exp.endTime)
    (hsorted : ∀ e ∈ rest, exp.startTime ≤ e.startTime) :
    TripsOk gap rest (tripStep gap trips exp) := by
  obtain ⟨hforward, hapart, hearly⟩ := h
  have hnew (hgap : ∀ t ∈ trips, Apart gap t exp) : TripsOk gap rest (trips ++ [exp]) := by
    refine ⟨?_, List.pairwise_append.mpr ⟨hapart, by simp, by simpa using hgap⟩, ?_⟩
    · simpa using fun t ht => ht.elim (hforward t) fun h => h ▸ hexp
    · intro t ht e he
      rcases List.mem_append.mp ht with ht | ht
      · exact hearly t ht e (by simp [he])
      · rw [List.mem_singleton.mp ht]
        exact hsorted e he
  rcases List.eq_nil_or_concat' trips with rfl | ⟨trips, trip, rfl⟩
  · exact hnew (by simp)
  · rw [tripStep, List.getLast?_concat]
    dsimp only
    obtain ⟨hinit, -, hlast⟩ := List.pairwise_append.mp hapart
    have hmem : trip ∈ trips ++ [trip] := by simp
    have hstart := hearly trip hmem
    split_ifs with hgap
    · rw [List.modifyLast_concat]
      refine ⟨?_, List.pairwise_append.mpr ⟨hinit, by simp, ?_⟩, ?_⟩
      · intro t ht
        rcases List.mem_append.mp ht with ht | ht
        · exact hforward t (by simp [ht])
        · rw [List.mem_singleton.mp ht]
          exact (hstart exp (by simp)).trans hexp
      · intro t ht u hu
        rw [List.mem_singleton.mp hu]
        exact hlast t ht trip (by simp)
      · intro t ht e he
        rcases List.mem_append.mp ht with ht | ht
        · exact hearly t (by simp [ht]) e (by simp [he])
        · rw [List.mem_singleton.mp ht]
          exact hstart e (by simp [he])
    · refine hnew fun t ht => ?_
      have hlt : gap < exp.startTime - trip.endTime := not_le.mp hgap
      rcases List.mem_append.mp ht with ht | ht
      · have h₁ : gap < trip.startTime - t.endTime := hlast t ht trip (by simp)
        have h₂ := hstart exp (by simp)
        rw [Apart]
        linarith
      · rw [List.mem_singleton.mp ht]
        exact hlt

theorem tripsOk_tripsOf (gap : ℚ) {exps : List Span}
    (hsorted : exps.Pairwise fun a b => a.startTime ≤ b.startTime)
    (hforward : ∀ e ∈ exps, e.startTime ≤ e.endTime) : TripsOk gap [] (tripsOf gap exps) := by
  have hrun : ∀ trips, TripsOk gap exps trips →
      TripsOk gap [] (exps.foldl (tripStep gap) trips) := by
    induction exps with
    | nil => exact fun _ h => h
    | cons exp exps ih =>
      intro trips h
      obtain ⟨hexp, hsorted⟩ := List.pairwise_cons.mp hsorted
      obtain ⟨hfirst, hforward⟩ := List.forall_mem_cons.mp hforward
      exact ih hsorted hforward _ (h.step hfirst hexp)
  exact hrun [] ⟨by simp, .nil, by simp⟩

/-! ## Coverage -/

/-- The trip contains the experiment. -/
def Span.Contains (t e : Span) : Prop := t.startTime ≤ e.startTime ∧ e.endTime ≤ t.endTime

/-- The trips are ordered and apart, and each experiment lies in exactly one of them. -/
structure TripsCover (gap : ℚ) (exps trips : List Span) : Prop where
  forward : ∀ t ∈ trips, t.startTime ≤ t.endTime
  apart : trips.Pairwise (Apart gap)
  covers : ∀ e ∈ exps, ∃! t, t ∈ trips ∧ t.Contains e

/-- An experiment starts within the trip of its run. -/
theorem exists_ends {exps run : List Span} {r : Span → Span → Bool}
    (hsorted : exps.Pairwise fun a b => a.startTime ≤ b.startTime)
    (hforward : ∀ e ∈ exps, e.startTime ≤ e.endTime)
    (hrun : run ∈ exps.splitBy r) {e : Span} (he : e ∈ run) :
    ∃ first last, ends run = some (first, last) ∧ run.getLast? = some last ∧
      first.startTime ≤ e.startTime ∧ e.startTime ≤ last.endTime := by
  have hsub : run.Sublist exps := by
    have h := List.sublist_flatten_of_mem hrun
    rwa [List.flatten_splitBy] at h
  have hsorted := hsorted.sublist hsub
  obtain ⟨first, rest, rfl⟩ := List.exists_cons_of_ne_nil (List.ne_nil_of_mem he)
  obtain ⟨init, last, hlast⟩ := (List.eq_nil_or_concat' (first :: rest)).resolve_left (by simp)
  have hgetLast : (first :: rest).getLast? = some last := by rw [hlast, List.getLast?_concat]
  refine ⟨first, last, by simp only [ends, hgetLast, List.head?_cons], hgetLast, ?_, ?_⟩
  · rcases List.mem_cons.mp he with rfl | he
    · exact le_refl _
    · exact (List.pairwise_cons.mp hsorted).1 e he
  · have hend : last.startTime ≤ last.endTime := hforward last (hsub.subset (by simp [hlast]))
    refine le_trans ?_ hend
    rw [hlast] at he hsorted
    rcases List.mem_append.mp he with he | he
    · exact (List.pairwise_append.mp hsorted).2.2 e he last (by simp)
    · rw [List.mem_singleton.mp he]

/-- A trip that contains the experiment is the one within which it starts. -/
theorem eq_of_contains {gap : ℚ} (hgap : 0 ≤ gap) {trips : List Span}
    (hapart : trips.Pairwise (Apart gap)) {t u e : Span} (ht : t ∈ trips) (hu : u ∈ trips)
    (hcontains : u.Contains e) (hforward : e.startTime ≤ e.endTime)
    (hlo : t.startTime ≤ e.startTime) (hhi : e.startTime ≤ t.endTime) : u = t := by
  by_contra hne
  obtain ⟨hustart, huend⟩ := hcontains
  have heither : trips.Pairwise fun a b => Apart gap a b ∨ Apart gap b a := hapart.imp .inl
  have : Std.Symm fun a b : Span => Apart gap a b ∨ Apart gap b a := ⟨fun _ _ => Or.symm⟩
  rcases heither.forall hu ht hne with h | h
  · rw [Apart] at h
    linarith
  · rw [Apart] at h
    linarith

/-- The trips cover all experiments exactly if none ends after the last one of its run. -/
theorem trips_cover_iff (gap : ℚ) (hgap : 0 ≤ gap) (exps : List Span)
    (hsorted : exps.Pairwise fun a b => a.startTime ≤ b.startTime)
    (hforward : ∀ e ∈ exps, e.startTime ≤ e.endTime) :
    TripsCover gap exps (tripsOf gap exps) ↔
      ∀ run ∈ exps.splitBy (Span.follows gap), ∀ e ∈ run, ∀ last ∈ run.getLast?,
        e.endTime ≤ last.endTime := by
  obtain ⟨hfwd, hapart, -⟩ := tripsOk_tripsOf gap hsorted hforward
  have hmem {run : List Span} (hrun : run ∈ exps.splitBy (Span.follows gap)) {p : Span × Span}
      (hp : ends run = some p) : runTrip p ∈ tripsOf gap exps := by
    rw [tripsOf_eq]
    exact List.mem_map_of_mem (List.mem_filterMap.mpr ⟨run, hrun, hp⟩)
  have hexp {run : List Span} (hrun : run ∈ exps.splitBy (Span.follows gap)) {e : Span}
      (he : e ∈ run) : e ∈ exps := by
    rw [← List.flatten_splitBy (Span.follows gap) exps]
    exact List.mem_flatten.mpr ⟨run, hrun, he⟩
  constructor
  · rintro ⟨-, -, hcovers⟩ run hrun e he last hlast
    obtain ⟨first, last', hends, hlast', hlo, hhi⟩ := exists_ends hsorted hforward hrun he
    obtain rfl : last' = last := Option.some.inj (hlast'.symm.trans hlast)
    obtain ⟨u, ⟨hu, hcontains⟩, -⟩ := hcovers e (hexp hrun he)
    obtain rfl := eq_of_contains hgap hapart (hmem hrun hends) hu hcontains
      (hforward e (hexp hrun he)) hlo hhi
    exact hcontains.2
  · intro h
    refine ⟨hfwd, hapart, fun e he => ?_⟩
    obtain ⟨run, hrun, hmemrun⟩ : ∃ run ∈ exps.splitBy (Span.follows gap), e ∈ run := by
      rwa [← List.flatten_splitBy (Span.follows gap) exps, List.mem_flatten] at he
    obtain ⟨first, last, hends, hlast, hlo, hhi⟩ := exists_ends hsorted hforward hrun hmemrun
    refine ⟨_, ⟨hmem hrun hends, hlo, h run hrun e hmemrun last hlast⟩, fun u hu => ?_⟩
    exact eq_of_contains hgap hapart (hmem hrun hends) hu.1 hu.2 (hforward e he) hlo hhi

theorem trips_cover_two : TripsCover 30 [⟨0, 10⟩, ⟨20, 50⟩, ⟨200, 210⟩]
    (getInterApDurationTrips [⟨0, 10⟩, ⟨20, 50⟩, ⟨200, 210⟩]) := by
  refine (trips_cover_iff 30 (by norm_num) [⟨0, 10⟩, ⟨20, 50⟩, ⟨200, 210⟩] ?_ ?_).mpr ?_
  · norm_num
  · norm_num
  · decide +kernel

/-- The second experiment lies within the first one and cuts its trip off at 20; the third one then
starts a trip of its own. -/
theorem nested_experiment_uncovered :
    getInterApDurationTrips [⟨0, 100⟩, ⟨10, 20⟩, ⟨60, 70⟩] =
        [⟨0, 20⟩, ⟨60, 70⟩] ∧
      ¬TripsCover 30 [⟨0, 100⟩, ⟨10, 20⟩, ⟨60, 70⟩]
        (getInterApDurationTrips [⟨0, 100⟩, ⟨10, 20⟩, ⟨60, 70⟩]) := by
  have htrips : getInterApDurationTrips [⟨0, 100⟩, ⟨10, 20⟩, ⟨60, 70⟩] =
      [⟨0, 20⟩, ⟨60, 70⟩] := by
    decide +kernel
  refine ⟨htrips, ?_⟩
  rw [htrips]
  rintro ⟨-, -, hcovers⟩
  obtain ⟨t, ⟨ht, -, hend⟩, -⟩ := hcovers ⟨0, 100⟩ (by simp)
  simp only [List.mem_cons, List.not_mem_nil, or_false] at ht
  rcases ht with rfl | rfl <;> norm_num at hend

end CarFi.Analyzer

import Mathlib.Algebra.BigOperators.Group.List.Basic
import Mathlib.Algebra.Order.Field.Rat
import Mathlib.Data.List.MinMax
import CarFi.Library.PyText

/-!
# Associations on the squares of a map

`generate_data_grid` of `analyzer/gpsmap.py` counts the coordinates of associations in the features
of a GeoJSON grid. A feature gets its borders and its count when a coordinate first comes to it, a
coordinate counts in the first feature that contains it, and the largest count is kept on the way.
-/
namespace CarFi.Analyzer

open Library

/-- `GPS`, as far as the grid reads it. -/
structure Coord where
  latitude : ℚ
  longitude : ℚ
  deriving DecidableEq, Repr

/-- `[min_lat, max_lat, min_lon, max_lon]` -/
structure Borders where
  minLat : ℚ
  maxLat : ℚ
  minLon : ℚ
  maxLon : ℚ
  deriving DecidableEq, Repr

/-- A feature: its rings of points, each a longitude and a latitude, and the two properties that
`generate_data_grid` sets. -/
structure Feature where
  coordinates : List (List (ℚ × ℚ))
  borders : Option Borders := none
  assocCount : Option Nat := none
  deriving DecidableEq, Repr

/-- `min` or `max` of a list, which raises for an empty one. -/
def orValueError (m : Option ℚ) : Except PyError ℚ :=
  match m with
  | none => .error .valueError
  | some v => .ok v

/-- `get_latlon_borders` -/
def getLatlonBorders (feature : Feature) : Except PyError Borders :=
  match feature.coordinates with
  | [ring] =>
    if ring.length = 5 then do
      let lats := ring.map Prod.snd
      let lons := ring.map Prod.fst
      return ⟨← orValueError lats.min?, ← orValueError lats.max?, ← orValueError lons.min?,
        ← orValueError lons.max?⟩
    else .error .assertionError
  | _ => .error .assertionError

def Borders.contains (b : Borders) (c : Coord) : Bool :=
  (b.minLat ≤ c.latitude && c.latitude ≤ b.maxLat) &&
    (b.minLon ≤ c.longitude && c.longitude ≤ b.maxLon)

/-- The properties of a feature at a visit. -/
def Feature.prepare (f : Feature) : Except PyError Feature :=
  match f.assocCount with
  | some _ => .ok f
  | none => do
    let b ← getLatlonBorders f
    return { f with borders := some b, assocCount := some 0 }

/-- The loop over the features for one coordinate, with the largest count so far. -/
def countCoord (c : Coord) (maxCount : Nat) : List Feature → Except PyError (List Feature × Nat)
  | [] => .ok ([], maxCount)
  | f :: features => do
    let f ← f.prepare
    match f.borders with
    | none => .error .keyError
    | some b =>
      if b.contains c then
        let count := f.assocCount.getD 0 + 1
        return ({ f with assocCount := some count } :: features,
          if count > maxCount then count else maxCount)
      else
        let (features, maxCount) ← countCoord c maxCount features
        return (f :: features, maxCount)

/-- `generate_data_grid`: the features and `max_assoc_count`. -/
def generateDataGrid (features : List Feature) (coordLst : List Coord) :
    Except PyError (List Feature × Nat) :=
  coordLst.foldlM (fun (features, maxCount) c => countCoord c maxCount features) (features, 0)

/-! ## Features and coordinates -/

/-- The borders of a feature can be computed: it has one ring of five points. -/
def Feature.IsSquare (f : Feature) : Prop := ∃ ring, f.coordinates = [ring] ∧ ring.length = 5

/-- The coordinate lies in the feature: neither north or south of all its points, nor east or west
of them. -/
def Feature.covers (f : Feature) (c : Coord) : Bool :=
  f.coordinates.flatten.any (fun p => p.2 ≤ c.latitude) &&
    f.coordinates.flatten.any (fun p => c.latitude ≤ p.2) &&
    (f.coordinates.flatten.any (fun p => p.1 ≤ c.longitude) &&
      f.coordinates.flatten.any fun p => c.longitude ≤ p.1)

def Feature.count (f : Feature) : Nat := f.assocCount.getD 0

/-- What is not below a list of numbers is not below the smallest, and so for the largest. -/
theorem exists_min_max {α : Type*} (f : α → ℚ) {l : List α} (h : l ≠ []) :
    ∃ lo hi, orValueError (l.map f).min? = .ok lo ∧ orValueError (l.map f).max? = .ok hi ∧
      ∀ x, decide (lo ≤ x) = l.any (fun a => f a ≤ x) ∧
        decide (x ≤ hi) = l.any fun a => x ≤ f a := by
  obtain ⟨lo, hlo⟩ : ∃ lo, (l.map f).min? = some lo :=
    Option.ne_none_iff_exists'.mp (by simpa [List.min?_eq_none_iff] using h)
  obtain ⟨hi, hhi⟩ : ∃ hi, (l.map f).max? = some hi :=
    Option.ne_none_iff_exists'.mp (by simpa [List.max?_eq_none_iff] using h)
  obtain ⟨hlomem, hlole⟩ := List.min?_eq_some_iff.mp hlo
  obtain ⟨himem, hile⟩ := List.max?_eq_some_iff.mp hhi
  refine ⟨lo, hi, by rw [hlo]; rfl, by rw [hhi]; rfl, fun x => ⟨?_, ?_⟩⟩
  · rw [Bool.eq_iff_iff, decide_eq_true_iff, List.any_eq_true]
    constructor
    · intro hx
      obtain ⟨a, ha, rfl⟩ := List.mem_map.mp hlomem
      exact ⟨a, ha, decide_eq_true hx⟩
    · rintro ⟨a, ha, hx⟩
      exact (hlole _ (List.mem_map_of_mem ha)).trans (of_decide_eq_true hx)
  · rw [Bool.eq_iff_iff, decide_eq_true_iff, List.any_eq_true]
    constructor
    · intro hx
      obtain ⟨a, ha, rfl⟩ := List.mem_map.mp himem
      exact ⟨a, ha, decide_eq_true hx⟩
    · rintro ⟨a, ha, hx⟩
      exact (of_decide_eq_true hx).trans (hile _ (List.mem_map_of_mem ha))

/-- The borders decide what lies in the feature. -/
theorem exists_borders {f : Feature} (h : f.IsSquare) :
    ∃ b, getLatlonBorders f = .ok b ∧ b.contains = f.covers := by
  obtain ⟨ring, hring, hlen⟩ := h
  have hne : ring ≠ [] := by
    rintro rfl
    cases hlen
  obtain ⟨south, north, hsouth, hnorth, hlat⟩ := exists_min_max Prod.snd hne
  obtain ⟨west, east, hwest, heast, hlon⟩ := exists_min_max Prod.fst hne
  refine ⟨⟨south, north, west, east⟩, ?_, funext fun c => ?_⟩
  · simp only [getLatlonBorders, hring, hlen, if_true, hsouth, hnorth, hwest, heast]
    rfl
  · simp only [Borders.contains, Feature.covers, hring, List.flatten_singleton, hlat, hlon]

/-- A feature as the loop leaves it: `f` with its own count. -/
structure Feature.Counts (g f : Feature) (n : Nat) : Prop where
  coordinates : g.coordinates = f.coordinates
  count : g.count = n
  borders : g.assocCount ≠ none → ∃ b, getLatlonBorders f = .ok b ∧ g.borders = some b

/-- After a visit the borders are those of the feature. -/
theorem Feature.Counts.prepare {g f : Feature} {n : Nat} (h : g.Counts f n) (hf : f.IsSquare) :
    ∃ g' b, g.prepare = .ok g' ∧ g'.borders = some b ∧ b.contains = f.covers ∧
      g'.assocCount = some n ∧ g'.coordinates = f.coordinates ∧ getLatlonBorders f = .ok b := by
  have hsame : getLatlonBorders g = getLatlonBorders f := by
    rw [getLatlonBorders, getLatlonBorders, h.coordinates]
  obtain ⟨b₀, hb₀, hcontains⟩ := exists_borders hf
  have hcovers {b : Borders} (hb : getLatlonBorders f = .ok b) : b.contains = f.covers :=
    Except.ok.inj (hb₀.symm.trans hb) ▸ hcontains
  have hcount := h.count
  rw [Feature.count] at hcount
  cases hassoc : g.assocCount with
  | none =>
    rw [hassoc] at hcount
    refine ⟨{ g with borders := some b₀, assocCount := some 0 }, b₀, ?_, rfl, hcontains, ?_,
      h.coordinates, hb₀⟩
    · rw [Feature.prepare, hassoc, hsame, hb₀]
      rfl
    · exact congrArg some hcount
  | some k =>
    obtain ⟨b, hb, hgb⟩ := h.borders (by simp [hassoc])
    rw [hassoc] at hcount
    refine ⟨g, b, by rw [Feature.prepare, hassoc], hgb, hcovers hb, ?_, h.coordinates, hb⟩
    rw [hassoc]
    exact congrArg some hcount

/-! ## The counts -/

/-- Each feature has counted the coordinates that it contains among those that no earlier feature
contains. -/
def GridCounted : List Feature → List Coord → List Feature → Prop
  | [], _, [] => True
  | f :: features, done, g :: gs =>
    g.Counts f (done.countP f.covers) ∧ GridCounted features (done.filter (! f.covers ·)) gs
  | _, _, _ => False

theorem gridCounted_nil {features : List Feature} (h : ∀ f ∈ features, f.assocCount = none) :
    GridCounted features [] features := by
  induction features with
  | nil => trivial
  | cons f features ih =>
    obtain ⟨hf, hrest⟩ := List.forall_mem_cons.mp h
    exact ⟨⟨rfl, by simp [Feature.count, hf], fun hne => absurd hf hne⟩, ih hrest⟩

/-- The largest count. -/
def maxCountOf (gs : List Feature) : Nat := (gs.map Feature.count).foldr max 0

/-- One coordinate: it is counted in the first feature that contains it. -/
theorem GridCounted.step {features : List Feature} (hsq : ∀ f ∈ features, f.IsSquare)
    {done : List Coord} {gs : List Feature} (h : GridCounted features done gs) (c : Coord)
    {maxCount : Nat} (hmax : maxCountOf gs ≤ maxCount) :
    ∃ gs' maxCount', countCoord c maxCount gs = .ok (gs', maxCount') ∧
      GridCounted features (done ++ [c]) gs' ∧ maxCount' = max maxCount (maxCountOf gs') ∧
      maxCountOf gs ≤ maxCountOf gs' := by
  induction features generalizing done gs with
  | nil =>
    cases gs with
    | nil => exact ⟨[], maxCount, rfl, trivial, by simp [maxCountOf], Nat.le_refl _⟩
    | cons _ _ => exact h.elim
  | cons f features ih =>
    cases gs with
    | nil => exact h.elim
    | cons g gs =>
      obtain ⟨hg, hgs⟩ := h
      obtain ⟨hf, hrest⟩ := List.forall_mem_cons.mp hsq
      obtain ⟨g', b, hprep, hb, hcovers, hassoc, hcoord, hborders⟩ := hg.prepare hf
      have hcount := hg.count
      have hcons (g : Feature) (gs : List Feature) :
          maxCountOf (g :: gs) = max g.count (maxCountOf gs) := rfl
      rw [hcons] at hmax ⊢
      rw [countCoord, hprep]
      simp only [bind, Except.bind, hb, hcovers]
      by_cases hc : f.covers c = true
      · rw [if_pos hc]
        simp only [hassoc, Option.getD_some]
        refine ⟨_, _, rfl, ⟨⟨hcoord, ?_, fun _ => ⟨b, hborders, rfl⟩⟩, ?_⟩, ?_⟩
        · simp [Feature.count, hc]
        · simpa [hc] using hgs
        · simp only [hcons, Feature.count, Option.getD_some] at hcount hmax ⊢
          constructor
          · split <;> omega
          · omega
      · rw [if_neg hc]
        obtain ⟨gs', max', hrun, hcounted, hnew, hle⟩ := ih hrest hgs (by omega)
        rw [hrun]
        refine ⟨_, _, rfl, ⟨⟨hcoord, ?_, fun _ => ⟨b, hborders, hb⟩⟩, ?_⟩, ?_⟩
        · simp [Feature.count, hassoc, hc]
        · simpa [hc] using hcounted
        · have hcount' : g'.count = g.count := by
            rw [hcount, Feature.count, hassoc]
            rfl
          simp only [hcons]
          omega

theorem le_maxCountOf {gs : List Feature} {g : Feature} (h : g ∈ gs) :
    g.count ≤ maxCountOf gs := by
  induction gs with
  | nil => cases h
  | cons g' gs ih =>
    change g.count ≤ max g'.count (maxCountOf gs)
    rcases List.mem_cons.mp h with rfl | h
    · exact Nat.le_max_left _ _
    · exact (ih h).trans (Nat.le_max_right _ _)

theorem maxCountOf_mem (gs : List Feature) :
    maxCountOf gs = 0 ∨ ∃ g ∈ gs, g.count = maxCountOf gs := by
  induction gs with
  | nil => exact .inl rfl
  | cons g gs ih =>
    have hcons : maxCountOf (g :: gs) = max g.count (maxCountOf gs) := rfl
    rcases Nat.le_total (maxCountOf gs) g.count with hle | hle
    · exact .inr ⟨g, by simp, by omega⟩
    · rcases ih with h0 | ⟨g', hg', heq⟩
      · exact .inl (by omega)
      · exact .inr ⟨g', by simp [hg'], by omega⟩

/-- All coordinates. -/
theorem gridCounted_foldlM {features : List Feature} (hsq : ∀ f ∈ features, f.IsSquare)
    (rest : List Coord) {done : List Coord} {gs : List Feature} (h : GridCounted features done gs) :
    ∃ gs', rest.foldlM (fun (features, maxCount) c => countCoord c maxCount features)
        (gs, maxCountOf gs) = Except.ok (gs', maxCountOf gs') ∧
      GridCounted features (done ++ rest) gs' := by
  induction rest generalizing done gs with
  | nil => exact ⟨gs, rfl, by simpa using h⟩
  | cons c rest ih =>
    obtain ⟨gs₁, max₁, hstep, hcounted, hmax, hle⟩ := h.step hsq c (Nat.le_refl _)
    obtain ⟨gs', hrun, hcounted'⟩ := ih hcounted
    refine ⟨gs', ?_, by simpa using hcounted'⟩
    rw [show max₁ = maxCountOf gs₁ by omega] at hstep
    rw [List.foldlM_cons]
    dsimp only
    rw [hstep]
    exact hrun

theorem GridCounted.coordinates {features : List Feature} {done : List Coord} {gs : List Feature}
    (h : GridCounted features done gs) :
    gs.map (·.coordinates) = features.map (·.coordinates) := by
  induction features generalizing done gs with
  | nil =>
    cases gs with
    | nil => rfl
    | cons _ _ => exact h.elim
  | cons f features ih =>
    match gs, h with
    | g :: gs, ⟨hg, hgs⟩ => rw [List.map_cons, List.map_cons, hg.coordinates, ih hgs]

/-- Every coordinate counts in the first feature that contains it, and in no other. -/
theorem GridCounted.count_getElem {features : List Feature} {done : List Coord} {gs : List Feature}
    (h : GridCounted features done gs) (i : Nat) (hi : i < gs.length) :
    gs[i].count = done.countP fun c => features.findIdx? (·.covers c) = some i := by
  induction features generalizing done gs i with
  | nil =>
    cases gs with
    | nil => cases hi
    | cons _ _ => exact h.elim
  | cons f features ih =>
    match gs, h, i with
    | g :: gs, ⟨hg, hgs⟩, 0 =>
      rw [List.getElem_cons_zero, hg.count]
      refine List.countP_congr fun c _ => ?_
      by_cases hc : f.covers c = true <;> simp [List.findIdx?_cons, hc]
    | g :: gs, ⟨hg, hgs⟩, i + 1 =>
      rw [List.getElem_cons_succ, ih hgs i (by simpa using hi), List.countP_filter]
      refine List.countP_congr fun c _ => ?_
      by_cases hc : f.covers c = true <;> simp [List.findIdx?_cons, hc]

theorem GridCounted.sum {features : List Feature} {done : List Coord} {gs : List Feature}
    (h : GridCounted features done gs) :
    (gs.map Feature.count).sum = done.countP fun c => features.any (·.covers c) := by
  induction features generalizing done gs with
  | nil =>
    cases gs with
    | nil => simp
    | cons _ _ => exact h.elim
  | cons f features ih =>
    match gs, h with
    | g :: gs, ⟨hg, hgs⟩ =>
      rw [List.map_cons, List.sum_cons, hg.count, ih hgs,
        List.countP_eq_countP_filter_add done (fun c => (f :: features).any (·.covers c)) f.covers,
        List.countP_filter, List.countP_filter, List.countP_filter]
      congr 1
      · refine List.countP_congr fun c _ => ?_
        by_cases hc : f.covers c = true <;> simp [hc]
      · refine List.countP_congr fun c _ => ?_
        by_cases hc : f.covers c = true <;> simp [hc]

/-- The grid counts every coordinate once, in the first feature that contains it, and
`max_assoc_count` is the largest count. -/
theorem generateDataGrid_correct (features : List Feature) (coordLst : List Coord)
    (hsq : ∀ f ∈ features, f.IsSquare) (hnew : ∀ f ∈ features, f.assocCount = none) :
    ∃ gs maxCount, generateDataGrid features coordLst = .ok (gs, maxCount) ∧
      gs.map (·.coordinates) = features.map (·.coordinates) ∧
      (∀ i (hi : i < gs.length), gs[i].count =
        coordLst.countP fun c => features.findIdx? (·.covers c) = some i) ∧
      (gs.map Feature.count).sum = coordLst.countP (fun c => features.any (·.covers c)) ∧
      (∀ g ∈ gs, g.count ≤ maxCount) ∧
      (maxCount = 0 ∨ ∃ g ∈ gs, g.count = maxCount) := by
  have hinit : maxCountOf features = 0 := by
    rcases maxCountOf_mem features with h | ⟨f, hf, h⟩
    · exact h
    · rw [← h, Feature.count, hnew f hf]
      rfl
  obtain ⟨gs, hrun, hcounted⟩ := gridCounted_foldlM hsq coordLst (gridCounted_nil hnew)
  rw [hinit] at hrun
  exact ⟨gs, maxCountOf gs, hrun, hcounted.coordinates, hcounted.count_getElem, hcounted.sum,
    fun _ => le_maxCountOf, maxCountOf_mem gs⟩

/-- The unit square with its lower left corner at the longitude and latitude given. -/
def squareAt (lon lat : ℚ) : Feature where
  coordinates := [[(lon, lat), (lon + 1, lat), (lon + 1, lat + 1), (lon, lat + 1), (lon, lat)]]

theorem generateDataGrid_correct_neighbours :
    ∃ gs maxCount,
      generateDataGrid [squareAt 0 0, squareAt 1 0] [⟨1 / 2, 1⟩] = .ok (gs, maxCount) ∧
      gs.map (·.coordinates) = [squareAt 0 0, squareAt 1 0].map (·.coordinates) ∧
      (∀ i (hi : i < gs.length), gs[i].count = [(⟨1 / 2, 1⟩ : Coord)].countP
        fun c => [squareAt 0 0, squareAt 1 0].findIdx? (·.covers c) = some i) ∧
      (gs.map Feature.count).sum = [(⟨1 / 2, 1⟩ : Coord)].countP
        (fun c => [squareAt 0 0, squareAt 1 0].any (·.covers c)) ∧
      (∀ g ∈ gs, g.count ≤ maxCount) ∧
      (maxCount = 0 ∨ ∃ g ∈ gs, g.count = maxCount) := by
  refine generateDataGrid_correct [squareAt 0 0, squareAt 1 0] [⟨1 / 2, 1⟩] ?_ ?_
  · intro f hf
    simp only [List.mem_cons, List.not_mem_nil, or_false] at hf
    rcases hf with rfl | rfl <;> exact ⟨_, rfl, rfl⟩
  · intro f hf
    simp only [List.mem_cons, List.not_mem_nil, or_false] at hf
    rcases hf with rfl | rfl <;> rfl

/-- A coordinate on a common border counts in the first square. -/
example : (generateDataGrid [squareAt 0 0, squareAt 1 0]
    [⟨1 / 2, 1⟩, ⟨0, 3 / 2⟩, ⟨1, 1⟩]).toOption.map
      (fun r => (r.1.map Feature.count, r.2)) = some ([2, 1], 2) := by
  decide +kernel

end CarFi.Analyzer

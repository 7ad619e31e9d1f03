import Mathlib.Data.List.DropRight
import CarFi.Library.PyTime

/-!
# The names of the tarballs

The collector names a tarball after its location marker and the times at which the experiment
started and ended. `Parser._parse_exp` and `clustering_exp_by_day` take such a name apart again,
at the dashes. A marker may be any key of the configuration, so it can hold a dash itself:
`Tarball.name_read_iff` says that a name is read back exactly when its marker holds none.
-/
namespace CarFi.Analyzer

open Library Library.PyText Library.PyTime

/-! ## Writing -/

/-- What `Collector.stop` names: both times are `datetime.now(timezone.utc)`. -/
structure Tarball where
  loc : List Char
  startTime : DateTime
  endTime : DateTime
  start_utc : startTime.utcoffset = 0
  end_utc : endTime.utcoffset = 0

def tarSuffix : List Char := ".tar.gz".toList

/-- `{location marker}-{start time}-{end time}` -/
def Tarball.exp (t : Tarball) : List Char :=
  t.loc ++ '-' :: (t.startTime.utcText ++ '-' :: t.endTime.utcText)

/-- `"{}-{}-{}.tar.gz"` -/
def Tarball.name (t : Tarball) : List Char := t.exp ++ tarSuffix

/-! ## Reading -/

/-- `a, b, c = exp.split("-")` -/
def splitName (exp : List Char) :
    Except PyError (List Char × List Char × List Char) :=
  match exp.splitOn '-' with
  | [a, b, c] => .ok (a, b, c)
  | _ => .error .valueError

/-- `strptime` with its `ValueError`. -/
def readTime (s : List Char) : Except PyError DateTime :=
  match strptime s with
  | some t => .ok t
  | none => .error .valueError

/-- How `_parse_exp` reads a name: the marker must be a key of the configuration. -/
def expInfo (config : List (List Char)) (exp : List Char) :
    Except PyError (List Char × ℚ × ℚ) :=
  match splitName exp with
  | .error e => .error e
  | .ok (locMarker, startTime, endTime) =>
    if config.contains locMarker then do
      let expStartTime ← readTime startTime
      let expEndTime ← readTime endTime
      .ok (locMarker, expStartTime.timestamp, expEndTime.timestamp)
    else .error .keyError

/-- `d[:-7]`, taken of the entries of `tar_dir` that end in `.tar.gz`. -/
def stem (d : List Char) : List Char := d.take (d.length - 7)

/-- `tarball.rstrip(".tar.gz")` drops these characters from the end, in any order. -/
def rstripTar (d : List Char) : List Char := d.rdropWhile (· ∈ tarSuffix)

/-- An experiment of a day: its name, its times and the offset of its GPS clock. -/
structure DayExp where
  exp : List Char
  startTime : ℚ
  endTime : ℚ
  offset : Option ℚ
  deriving DecidableEq

/-- `exp_dict`, in the order in which the days were met. -/
abbrev ExpDict := List ((Nat × Nat × Nat) × List DayExp)

/-- `exp_dict[date].append(e)`, after the key was put in if it was missing. -/
def ExpDict.add (dict : ExpDict) (date : Nat × Nat × Nat) (e : DayExp) : ExpDict :=
  if date ∈ dict.map (·.1) then
    dict.map fun day => if day.1 = date then (day.1, day.2 ++ [e]) else day
  else dict ++ [(date, [e])]

/-- The body of the loop of `clustering_exp_by_day`. -/
def clusterExp (dict : ExpDict) : List Char × Option ℚ → Except PyError ExpDict
  | (exp, offset) =>
    match splitName exp with
    | .error e => .error e
    | .ok (_, startTime, endTime) => do
      let expStartTime ← readTime startTime
      let expEndTime ← readTime endTime
      .ok (dict.add expStartTime.date
        ⟨exp, expStartTime.timestamp, expEndTime.timestamp, offset⟩)

def clusteringExpByDay (offsetList : List (List Char × Option ℚ)) : Except PyError ExpDict :=
  offsetList.foldlM clusterExp []

/-! ## The stems -/

theorem utcText_eq (t : DateTime) : ∃ s, t.utcText = s ++ ['0'] :=
  ⟨t.civil.text ++ ['+', '0', '0', '0'], by simp [DateTime.utcText]⟩

theorem stem_append (exp : List Char) : stem (exp ++ tarSuffix) = exp := by
  have hlen : tarSuffix.length = 7 := by decide
  simp [stem, hlen]

theorem stem_name (t : Tarball) : stem t.name = t.exp := stem_append t.exp

/-- A name ends in a zero before the suffix, so `rstrip` stops there. -/
theorem rstripTar_name (t : Tarball) : rstripTar t.name = t.exp := by
  obtain ⟨s, hs⟩ := utcText_eq t.endTime
  have hexp : t.exp = (t.loc ++ '-' :: (t.startTime.utcText ++ '-' :: s)) ++ ['0'] := by
    simp [Tarball.exp, hs]
  rw [rstripTar, Tarball.name, hexp, List.rdropWhile, List.reverse_append,
    List.dropWhile_append_of_pos fun c hc => by simpa using hc]
  have hzero : ('0' ∈ tarSuffix) = False := by decide
  simp [hzero]

/-! ## The dashes -/

theorem dash_notMem_utcText (t : DateTime) : '-' ∉ t.utcText := by
  intro hdash
  have h := mem_utcText hdash
  exact absurd h (by decide)

theorem length_splitOn (c : Char) (s : List Char) :
    (s.splitOn c).length = s.count c + 1 := by
  induction s with
  | nil => rfl
  | cons d s ih =>
    rw [List.splitOn, List.splitOnP_cons_eq_if_modifyHead]
    by_cases hd : d = c
    · subst hd
      simpa [List.splitOn] using ih
    · simpa [List.splitOn, hd] using ih

theorem splitOn_exp {t : Tarball} (h : '-' ∉ t.loc) :
    t.exp.splitOn '-' = [t.loc, t.startTime.utcText, t.endTime.utcText] := by
  have hexp : t.exp = ['-'].intercalate [t.loc, t.startTime.utcText, t.endTime.utcText] := by
    simp [Tarball.exp, List.intercalate]
  rw [hexp, List.splitOn_intercalate]
  · simpa using ⟨h, dash_notMem_utcText _, dash_notMem_utcText _⟩
  · simp

theorem splitName_exp {t : Tarball} (h : '-' ∉ t.loc) :
    splitName t.exp = .ok (t.loc, t.startTime.utcText, t.endTime.utcText) := by
  rw [splitName, splitOn_exp h]

/-- A dash in the marker gives more than three pieces. -/
theorem splitName_exp_of_mem {t : Tarball} (h : '-' ∈ t.loc) :
    splitName t.exp = .error .valueError := by
  have hcount : 1 ≤ t.loc.count '-' := List.count_pos_iff.mpr h
  have hlen : 3 < (t.exp.splitOn '-').length := by
    simp only [length_splitOn, Tarball.exp, List.count_append, List.count_cons_self]
    omega
  unfold splitName
  split
  · rename_i hthree
    simp [hthree] at hlen
  · rfl

theorem readTime_utcText {t : DateTime} (h : t.utcoffset = 0) :
    readTime t.utcText = .ok t.truncated := by
  rw [readTime, strptime_utcText h]

theorem expInfo_exp {t : Tarball} {config : List (List Char)} (hkey : t.loc ∈ config)
    (h : '-' ∉ t.loc) :
    expInfo config t.exp =
      .ok (t.loc, t.startTime.truncated.timestamp, t.endTime.truncated.timestamp) := by
  rw [expInfo, splitName_exp h]
  simp only [if_pos (List.contains_iff_mem.mpr hkey), readTime_utcText t.start_utc,
    readTime_utcText t.end_utc]
  rfl

theorem clusterExp_exp {t : Tarball} (h : '-' ∉ t.loc) (dict : ExpDict) (offset : Option ℚ) :
    clusterExp dict (t.exp, offset) =
      .ok (dict.add t.startTime.date
        ⟨t.exp, t.startTime.truncated.timestamp, t.endTime.truncated.timestamp, offset⟩) := by
  simp only [clusterExp, splitName_exp h, readTime_utcText t.start_utc,
    readTime_utcText t.end_utc]
  rfl

/-! ## All experiments of a directory -/

/-- The experiment of a tarball, with its offset. -/
def Tarball.dayExp (t : Tarball) (offset : Option ℚ) : DayExp :=
  ⟨t.exp, t.startTime.truncated.timestamp, t.endTime.truncated.timestamp, offset⟩

/-- Every day on which a tarball was started stands in the dictionary once, with its tarballs in
their order. -/
structure ExpDict.Groups (dict : ExpDict) (ts : List (Tarball × Option ℚ)) : Prop where
  nodup : (dict.map (·.1)).Nodup
  days : ∀ date, date ∈ dict.map (·.1) ↔ ∃ t ∈ ts, t.1.startTime.date = date
  exps : ∀ day ∈ dict,
    day.2 = (ts.filter fun t => t.1.startTime.date = day.1).map fun t => t.1.dayExp t.2

theorem ExpDict.keys_add (dict : ExpDict) (date : Nat × Nat × Nat) (e : DayExp) :
    (dict.add date e).map (·.1) =
      if date ∈ dict.map (·.1) then dict.map (·.1) else dict.map (·.1) ++ [date] := by
  unfold ExpDict.add
  split
  · rw [List.map_map]
    refine List.map_congr_left fun day _ => ?_
    by_cases h : day.1 = date <;> simp [h]
  · simp

theorem ExpDict.Groups.add {dict : ExpDict} {ts : List (Tarball × Option ℚ)} (h : dict.Groups ts)
    (t : Tarball × Option ℚ) :
    (dict.add t.1.startTime.date (t.1.dayExp t.2)).Groups (ts ++ [t]) := by
  have hkeys := dict.keys_add t.1.startTime.date (t.1.dayExp t.2)
  have hdays := h.days
  by_cases hmem : t.1.startTime.date ∈ dict.map (·.1)
  · rw [if_pos hmem] at hkeys
    refine ⟨hkeys ▸ h.nodup, fun date => ?_, fun day hday => ?_⟩
    · rw [hkeys, hdays]
      simp only [List.mem_append, List.mem_singleton, or_and_right, exists_or, exists_eq_left]
      refine ⟨.inl, fun hdate => hdate.elim id ?_⟩
      rintro rfl
      exact (hdays _).mp hmem
    · rw [ExpDict.add, if_pos hmem] at hday
      obtain ⟨old, hold, rfl⟩ := List.mem_map.mp hday
      by_cases hdate : old.1 = t.1.startTime.date
      · simp [hdate, h.exps old hold, List.filter_append]
      · simp [hdate, h.exps old hold, List.filter_append, Ne.symm hdate]
  · rw [if_neg hmem] at hkeys
    refine ⟨?_, fun date => ?_, fun day hday => ?_⟩
    · rw [hkeys]
      refine List.nodup_append.mpr ⟨h.nodup, by simp, fun date hdate new hnew => ?_⟩
      rw [List.mem_singleton.mp hnew]
      exact fun heq => hmem (heq ▸ hdate)
    · rw [hkeys, List.mem_append, hdays, List.mem_singleton]
      simp only [List.mem_append, List.mem_singleton, or_and_right, exists_or, exists_eq_left]
      exact or_congr_right eq_comm
    · rw [ExpDict.add, if_neg hmem] at hday
      rcases List.mem_append.mp hday with hold | hnew
      · have hne : t.1.startTime.date ≠ day.1 :=
          fun heq => hmem (heq ▸ List.mem_map_of_mem hold)
        simp [h.exps day hold, List.filter_append, hne]
      · obtain rfl := List.mem_singleton.mp hnew
        have hnone : ts.filter (fun u => u.1.startTime.date = t.1.startTime.date) = [] := by
          rw [List.filter_eq_nil_iff]
          intro u hu hdate
          exact hmem ((hdays _).mpr ⟨u, hu, decide_eq_true_iff.mp hdate⟩)
        simp [List.filter_append, hnone]

/-- The tarballs are grouped by their days if no marker holds a dash. -/
theorem clusteringExpByDay_groups {ts : List (Tarball × Option ℚ)}
    (h : ∀ t ∈ ts, '-' ∉ t.1.loc) :
    ∃ dict, clusteringExpByDay (ts.map fun t => (t.1.exp, t.2)) = .ok dict ∧
      dict.Groups ts := by
  unfold clusteringExpByDay
  induction ts using List.reverseRecOn with
  | nil => exact ⟨[], rfl, .nil, by simp, by simp⟩
  | append_singleton ts t ih =>
    obtain ⟨hts, ht⟩ := List.forall_mem_append.mp h
    obtain ⟨dict, hdict, hgroups⟩ := ih hts
    refine ⟨_, ?_, hgroups.add t⟩
    rw [List.map_append, List.foldlM_append, hdict]
    simp only [List.map_cons, List.map_nil, List.foldlM_cons, List.foldlM_nil]
    exact (congrArg (· >>= pure) (clusterExp_exp (ht t (by simp)) dict t.2)).trans rfl

/-! ## The round trip -/

/-- Both programs read the name back: the marker, and the times cut to whole seconds. -/
structure Tarball.ReadBack (t : Tarball) (config : List (List Char)) (dict : ExpDict)
    (offset : Option ℚ) : Prop where
  marker : ∃ startTime endTime, splitName (rstripTar t.name) = .ok (t.loc, startTime, endTime)
  parse_exp : expInfo config (stem t.name) =
    .ok (t.loc, t.startTime.truncated.timestamp, t.endTime.truncated.timestamp)
  clustering : clusterExp dict (rstripTar t.name, offset) =
    .ok (dict.add t.startTime.date
      ⟨t.exp, t.startTime.truncated.timestamp, t.endTime.truncated.timestamp, offset⟩)

/-- A name whose marker is a key of the configuration is read back exactly when the marker
holds no dash. -/
theorem Tarball.name_read_iff (t : Tarball) (config : List (List Char)) (hkey : t.loc ∈ config)
    (dict : ExpDict) (offset : Option ℚ) :
    t.ReadBack config dict offset ↔ '-' ∉ t.loc := by
  constructor
  · intro hread hdash
    obtain ⟨startTime, endTime, hmarker⟩ := hread.marker
    rw [rstripTar_name, splitName_exp_of_mem hdash] at hmarker
    cases hmarker
  · intro hdash
    refine ⟨⟨t.startTime.utcText, t.endTime.utcText, ?_⟩, ?_, ?_⟩
    · rw [rstripTar_name, splitName_exp hdash]
    · rw [stem_name, expInfo_exp hkey hdash]
    · rw [rstripTar_name, clusterExp_exp hdash]

/-- The tarball of the example in `Collector.stop`. -/
def paris (loc : String) : Tarball where
  loc := loc.toList
  startTime := ⟨⟨2000, 7, 1, 12, 12, 12⟩, 250000, 0, by decide⟩
  endTime := ⟨⟨2001, 7, 1, 12, 12, 12⟩, 0, 0, by decide⟩
  start_utc := rfl
  end_utc := rfl

example : (paris "Paris").name =
    "Paris-2000_07_01_12h12m12s+0000-2001_07_01_12h12m12s+0000.tar.gz".toList := by decide

theorem Tarball.name_read_paris : (paris "Paris").ReadBack ["Paris".toList] [] none :=
  ((paris "Paris").name_read_iff ["Paris".toList] (by decide) [] none).mpr (by decide)

/-- The name of a tarball of the location `Paris-14` is not taken apart at all. -/
theorem dashed_marker_rejected :
    expInfo ["Paris-14".toList] (stem (paris "Paris-14").name) = .error .valueError := by
  have hdash : '-' ∈ (paris "Paris-14").loc := by decide
  rw [stem_name, expInfo, splitName_exp_of_mem hdash]

end CarFi.Analyzer

import Mathlib.Algebra.BigOperators.Group.List.Basic
import Mathlib.Algebra.Order.Field.Rat
import Mathlib.Data.List.ReduceOption
import CarFi.Library.Runs

/-!
# Changes of the IP address

`plot_ip_changing` of `analyzer/plotter.py` and `tool-scripts/compute_ip_change.py` look for changes
of the address during a trip. The second one compares every address with the one before. The first
one never moves on from the first address of the trip, so it counts how often the address is not the
first one.
-/
namespace CarFi.Analyzer

open Library

variable {α : Type*} [DecidableEq α]

/-! ## The two loops -/

/-- The counters of `plot_ip_changing`. -/
structure IpCounters (α : Type*) where
  lastIp : Option α := none
  ipChangeCount : Nat := 0
  arrIpCh : Nat := 0
  arrIpChCount : List ℚ := []
  totalIpCount : Nat := 0

/-- One association of a trip, with its address if there is one. -/
def IpCounters.association (s : IpCounters α) : Option α → IpCounters α
  | none => s
  | some ip =>
    let last := s.lastIp.getD ip
    let change := if last ≠ ip then 1 else 0
    { s with
      lastIp := some last
      ipChangeCount := s.ipChangeCount + change
      arrIpCh := s.arrIpCh + change
      totalIpCount := s.totalIpCount + 1 }

/-- One trip. -/
def IpCounters.trip (s : IpCounters α) (apIps : List (Option α)) : IpCounters α :=
  let s := apIps.foldl IpCounters.association { s with lastIp := none }
  { s with
    arrIpChCount :=
      if apIps.length ≠ 0 ∧
        s.arrIpCh ≠ 0 then s.arrIpChCount ++ [(apIps.length : ℚ) / s.arrIpCh]
      else s.arrIpChCount
    arrIpCh := 0 }

/-- The counting of `plot_ip_changing`, over the addresses of the trips. -/
def plotIpChanging (trips : List (List (Option α))) : IpCounters α :=
  trips.foldl IpCounters.trip {}

/-- An entry of the list of a trip: the address, and when it was got and lost. -/
structure IpEntry (α : Type*) where
  ip : Option α
  ipTS : ℚ
  ipTE : ℚ

/-- The variables of `compute_ip_change.py` for a trip. -/
structure IpRuns (α : Type*) where
  changed : Bool := false
  lastIp : Option α := none
  currIpTS : ℚ := 0
  currIpTE : ℚ := 0
  ipDurationList : List ℚ := []

def IpRuns.entry (s : IpRuns α) (e : IpEntry α) : IpRuns α :=
  let s := if s.lastIp = none then { s with lastIp := e.ip, currIpTS := e.ipTS } else s
  let s :=
    if s.lastIp ≠ e.ip then
      { s with
        changed := true
        ipDurationList := s.ipDurationList ++ [s.currIpTE - s.currIpTS]
        currIpTS := e.ipTS }
    else s
  { s with currIpTE := e.ipTE, lastIp := e.ip }

/-- A trip of `compute_ip_change.py`: whether the address changed, and the durations. Trips without
an entry are left out. -/
def computeIpChange (ipList : List (IpEntry α)) : Option (Bool × List ℚ) :=
  if ipList.length = 0 then none
  else
    let s := ipList.foldl IpRuns.entry {}
    some (s.changed, s.ipDurationList ++ [s.currIpTE - s.currIpTS])

/-! ## Changes and runs -/

/-- The positions with an address that differs from the last one before it. -/
def changesFrom (prev : Option α) : List (Option α) → Nat
  | [] => 0
  | none :: ips => changesFrom prev ips
  | some ip :: ips => (if prev.any (· ≠ ip) then 1 else 0) + changesFrom (some ip) ips

def ipChanges (ips : List (Option α)) : Nat := changesFrom none ips

theorem changesFrom_some (a : α) (ips : List (Option α)) :
    changesFrom (some a) ips =
      (neighbours (a :: ips.reduceOption)).countP fun p => p.1 ≠ p.2 := by
  induction ips generalizing a with
  | nil => rfl
  | cons ip ips ih =>
    cases ip with
    | none => simpa [changesFrom] using ih a
    | some b =>
      rw [changesFrom, ih, List.reduceOption_cons_of_some, neighbours_cons_cons, List.countP_cons]
      by_cases hab : a = b <;> simp [hab, Nat.add_comm]

theorem ipChanges_eq (ips : List (Option α)) :
    ipChanges ips = (neighbours ips.reduceOption).countP fun p => p.1 ≠ p.2 := by
  rw [ipChanges]
  induction ips with
  | nil => rfl
  | cons ip ips ih =>
    cases ip with
    | none => simpa [changesFrom] using ih
    | some a => simp [changesFrom, changesFrom_some]

/-- The changes are the places between the runs of equal addresses. -/
theorem ipChanges_eq_runs (ips : List (Option α)) :
    ipChanges ips = (ips.reduceOption.splitBy (· == ·)).length - 1 := by
  rw [ipChanges_eq]
  by_cases hne : ips.reduceOption = []
  · rw [hne]
    rfl
  · rw [length_splitBy _ hne, Nat.add_sub_cancel]
    exact List.countP_congr fun p _ => by simp

/-! ## What the first loop counts -/

/-- How often the address is not the first one of the trip. -/
def deviations (ips : List (Option α)) : Nat :=
  match ips.reduceOption with
  | [] => 0
  | first :: rest => rest.countP (first ≠ ·)

theorem foldl_association (first : α) (ips : List (Option α)) (s : IpCounters α)
    (hs : s.lastIp = some first) :
    (ips.foldl IpCounters.association s).ipChangeCount =
      s.ipChangeCount + ips.reduceOption.countP (first ≠ ·) := by
  induction ips generalizing s with
  | nil => rfl
  | cons ip ips ih =>
    rw [List.foldl_cons]
    cases ip with
    | none =>
      rw [List.reduceOption_cons_of_none]
      exact ih s hs
    | some a =>
      rw [ih _ (by simp [IpCounters.association, hs]), List.reduceOption_cons_of_some,
        List.countP_cons]
      simp only [IpCounters.association, hs, Option.getD_some, decide_eq_true_eq]
      omega

theorem ipChangeCount_trip (s : IpCounters α) (ips : List (Option α)) :
    (s.trip ips).ipChangeCount = s.ipChangeCount + deviations ips := by
  suffices h : ∀ t : IpCounters α, t.lastIp = none →
      (ips.foldl IpCounters.association t).ipChangeCount = t.ipChangeCount + deviations ips from
    h { s with lastIp := none } rfl
  intro t ht
  induction ips with
  | nil => rfl
  | cons ip ips ih =>
    rw [List.foldl_cons]
    cases ip with
    | none =>
      rw [deviations, List.reduceOption_cons_of_none]
      exact ih
    | some a =>
      rw [foldl_association a _ _ (by simp [IpCounters.association, ht]), deviations,
        List.reduceOption_cons_of_some]
      simp [IpCounters.association, ht]

theorem ipChangeCount_plotIpChanging (trips : List (List (Option α))) :
    (plotIpChanging trips).ipChangeCount = (trips.map deviations).sum := by
  suffices h : ∀ s : IpCounters α, (trips.foldl IpCounters.trip s).ipChangeCount =
      s.ipChangeCount + (trips.map deviations).sum by
    rw [plotIpChanging, h, Nat.zero_add]
  induction trips with
  | nil => exact fun _ => rfl
  | cons ips trips ih =>
    intro s
    rw [List.foldl_cons, ih, ipChangeCount_trip, List.map_cons, List.sum_cons]
    omega

/-- How often an address other than the first one is followed by itself. -/
def repeats (ips : List (Option α)) : Nat :=
  (neighbours ips.reduceOption).countP fun p => p.1 = p.2 ∧ some p.2 ≠ ips.reduceOption.head?

/-- How often the address changes back to the first one. -/
def returns (ips : List (Option α)) : Nat :=
  (neighbours ips.reduceOption).countP fun p => p.1 ≠ p.2 ∧ some p.2 = ips.reduceOption.head?

/-- The first loop counts repeated addresses too much and returns to the first address too little.
-/
theorem deviations_add_returns (ips : List (Option α)) :
    deviations ips + returns ips = ipChanges ips + repeats ips := by
  rw [deviations, returns, ipChanges_eq, repeats]
  cases ips.reduceOption with
  | nil => rfl
  | cons first rest =>
    have hrest : rest = (neighbours (first :: rest)).map Prod.snd := by
      rw [neighbours, List.map_snd_zip (by simp), List.tail_cons]
    have hpairs (l : List (α × α)) : (l.map Prod.snd).countP (first ≠ ·) +
        l.countP (fun p => p.1 ≠ p.2 ∧ some p.2 = some first) =
        l.countP (fun p => p.1 ≠ p.2) +
          l.countP (fun p => p.1 = p.2 ∧ some p.2 ≠ some first) := by
      induction l with
      | nil => rfl
      | cons p l ih =>
        simp only [List.map_cons, List.countP_cons, decide_eq_true_eq, Option.some.injEq] at ih ⊢
        grind
    have h := hpairs (neighbours (first :: rest))
    rw [← hrest] at h
    exact h

/-! ## What the second loop finds -/

/-- The entries have the same address. -/
def sameIp (e e' : IpEntry α) : Bool := e.ip == e'.ip

/-- From the start of the first entry of a run to the end of the last. -/
def runDuration (p : IpEntry α × IpEntry α) : ℚ := p.2.ipTE - p.1.ipTS

/-- The variables after the entries, the last of which is `last`. -/
structure RunsTo (init : List (IpEntry α × IpEntry α)) (first last : IpEntry α)
    (s : IpRuns α) : Prop where
  changed : s.changed = !init.isEmpty
  lastIp : s.lastIp = last.ip
  currIpTS : s.currIpTS = first.ipTS
  currIpTE : s.currIpTE = last.ipTE
  durations : s.ipDurationList = init.map runDuration

theorem IpRuns.entry_same {s : IpRuns α} {e : IpEntry α} (hne : s.lastIp ≠ none)
    (h : s.lastIp = e.ip) : s.entry e = { s with currIpTE := e.ipTE, lastIp := e.ip } := by
  rw [IpRuns.entry]
  simp only [if_neg hne, if_neg (not_not.mpr h)]

theorem IpRuns.entry_other {s : IpRuns α} {e : IpEntry α} (hne : s.lastIp ≠ none)
    (h : s.lastIp ≠ e.ip) :
    s.entry e = ⟨true, e.ip, e.ipTS, e.ipTE,
      s.ipDurationList ++ [s.currIpTE - s.currIpTS]⟩ := by
  rw [IpRuns.entry]
  simp only [if_neg hne, if_pos h]

theorem runsTo_foldl {l : List (IpEntry α)} {last : IpEntry α}
    (hip : ∀ e ∈ l ++ [last], e.ip ≠ none) :
    ∃ init first, runEnds sameIp (l ++ [last]) = init ++ [(first, last)] ∧
      RunsTo init first last ((l ++ [last]).foldl IpRuns.entry {}) := by
  refine foldl_runEnds (fun e => e.ip ≠ none) RunsTo ?_ ?_ ?_ hip
  · intro e _
    constructor <;> simp [IpRuns.entry]
  · intro init first b e s hb hr h
    have heq : b.ip = e.ip := by simpa [sameIp] using hr
    rw [IpRuns.entry_same (h.lastIp ▸ hb) (h.lastIp.trans heq)]
    exact ⟨h.changed, rfl, h.currIpTS, rfl, h.durations⟩
  · intro init first b e s hb hr h
    have hne : b.ip ≠ e.ip := by simpa [sameIp] using hr
    rw [IpRuns.entry_other (h.lastIp ▸ hb) (h.lastIp ▸ hne)]
    refine ⟨by simp, rfl, rfl, rfl, ?_⟩
    rw [h.durations, h.currIpTE, h.currIpTS, List.map_append]
    rfl

/-- The second loop finds the maximal runs. -/
theorem computeIpChange_eq {ipList : List (IpEntry α)} (hne : ipList ≠ [])
    (hip : ∀ e ∈ ipList, e.ip ≠ none) :
    computeIpChange ipList = some (decide (1 < (runEnds sameIp ipList).length),
      (runEnds sameIp ipList).map runDuration) := by
  obtain ⟨l, last, rfl⟩ := (List.eq_nil_or_concat' ipList).resolve_left hne
  obtain ⟨init, first, hends, hruns⟩ := runsTo_foldl hip
  rw [computeIpChange, if_neg (by simp), hends, List.map_append]
  dsimp only
  rw [hruns.changed, hruns.durations, hruns.currIpTE, hruns.currIpTS]
  cases init <;> simp [runDuration]

/-- There is one run more than there are changes. -/
theorem length_runEnds_sameIp {ipList : List (IpEntry α)} {ips : List (Option α)}
    (hips : ipList.map (·.ip) = ips.reduceOption.map some) (hne : ipList ≠ []) :
    (runEnds sameIp ipList).length = ipChanges ips + 1 := by
  have hpairs : (neighbours ipList).countP (fun p => !sameIp p.1 p.2) =
      (neighbours (ipList.map (·.ip))).countP fun p => p.1 ≠ p.2 := by
    rw [neighbours_map, List.countP_map]
    exact List.countP_congr fun p _ => by simp [sameIp]
  rw [length_runEnds, length_splitBy _ hne, hpairs, hips, neighbours_map, List.countP_map,
    ipChanges_eq]
  congr 1
  exact List.countP_congr fun p _ => by simp

/-- The two loops agree on the number of changes, with each other and with the runs of equal
addresses. -/
structure IpChangesAgree (trips : List (List (Option α))) : Prop where
  count : (plotIpChanging trips).ipChangeCount = (trips.map ipChanges).sum
  runs : ∀ ips ∈ trips, ipChanges ips = (ips.reduceOption.splitBy (· == ·)).length - 1
  detected : ∀ ips ∈ trips, ∀ ipList : List (IpEntry α), ipList ≠ [] →
    ipList.map (·.ip) = ips.reduceOption.map some →
    ∃ durations, computeIpChange ipList = some (decide (ipChanges ips ≠ 0), durations) ∧
      durations.length = ipChanges ips + 1

theorem ip_changes_agree_iff (trips : List (List (Option α))) :
    IpChangesAgree trips ↔ (trips.map repeats).sum = (trips.map returns).sum := by
  have hsum : (trips.map deviations).sum + (trips.map returns).sum =
      (trips.map ipChanges).sum + (trips.map repeats).sum := by
    induction trips with
    | nil => rfl
    | cons ips trips ih =>
      have := deviations_add_returns ips
      simp only [List.map_cons, List.sum_cons]
      omega
  constructor
  · intro h
    have hcount := h.count
    rw [ipChangeCount_plotIpChanging] at hcount
    omega
  · intro h
    refine ⟨?_, fun ips _ => ipChanges_eq_runs ips, fun ips _ ipList hne hips => ?_⟩
    · rw [ipChangeCount_plotIpChanging]
      omega
    · have hip : ∀ e ∈ ipList, e.ip ≠ none := by
        intro e he hnone
        have hmem : none ∈ ipList.map (·.ip) := hnone ▸ List.mem_map_of_mem he
        rw [hips] at hmem
        simp at hmem
      have hlen := length_runEnds_sameIp hips hne
      have hchanged : decide (1 < (runEnds sameIp ipList).length) =
          decide (ipChanges ips ≠ 0) := by
        rw [hlen, decide_eq_decide]
        omega
      refine ⟨(runEnds sameIp ipList).map runDuration, ?_, by rw [List.length_map, hlen]⟩
      rw [computeIpChange_eq hne hip, hchanged]

/-- After the addresses 1, 2, 2, 2 there is one change, and three are counted. -/
theorem repeated_address_counted :
    (plotIpChanging [[some 1, some 2, none, some 2, some 2]]).ipChangeCount = 3 ∧
      ipChanges [some 1, some 2, none, some 2, some 2] = 1 ∧
      ¬IpChangesAgree [[some 1, some 2, none, some 2, some 2]] := by
  refine ⟨rfl, rfl, fun h => ?_⟩
  have hcount := h.count
  cases hcount

end CarFi.Analyzer

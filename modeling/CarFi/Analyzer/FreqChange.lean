import Mathlib.Algebra.Order.Field.Rat
import Mathlib.Data.List.Dedup
import Mathlib.Tactic.Linarith
import CarFi.Library.KeySort
import CarFi.Library.PyText
import CarFi.Library.Runs

/-!
# Changes of the frequency

`get_freq_change_per_ap` of `analyzer/plotter.py` looks up the access points that were seen at more
than one frequency, and for each of them the durations for which a frequency was kept. The query for
the durations has no condition on the access point, so every access point contributes the durations
over the records of all of them.
-/
namespace CarFi.Analyzer

open Library

abbrev Bssid := List Char

/-- The columns of `APTCPInfo` that the function reads. -/
structure FreqRow where
  l2Bssid : Bssid
  l2Freq : Option Nat
  l2AuthTS : ℚ
  l2ConnTS : ℚ
  l2ConnTE : ℚ
  deriving DecidableEq, Repr

/-- `MAX_CONN_LEN` -/
def maxConnLen : ℚ := 600

/-- The condition of both queries. -/
def FreqRow.qualifies (row : FreqRow) : Bool :=
  row.l2Freq.isSome && row.l2ConnTE - row.l2ConnTS ≤ maxConnLen

/-- A row of the second query: `l2_auth_t_s`, `l2_conn_t_e` and `l2_freq`. -/
structure ApFreq where
  tS : ℚ
  tE : ℚ
  freq : Option Nat
  deriving DecidableEq, Repr

def FreqRow.apFreq (row : FreqRow) : ApFreq := ⟨row.l2AuthTS, row.l2ConnTE, row.l2Freq⟩

def orderByStart (rows : List FreqRow) : List FreqRow := sortBy FreqRow.l2AuthTS rows

/-- The distinct frequencies of an access point. -/
def freqsOf (table : List FreqRow) (ap : Bssid) : List (Option Nat) :=
  ((table.filter fun row => row.qualifies ∧ row.l2Bssid = ap).map (·.l2Freq)).dedup

/-- The result of the first query: every access point with the number of its frequencies. -/
def freqCounts (table : List FreqRow) : List (Bssid × Nat) :=
  ((table.filter (·.qualifies)).map (·.l2Bssid)).dedup.map fun ap =>
    (ap, (freqsOf table ap).length)

/-- The variables of the loop over the frequencies, which are all set or all `None`. -/
structure FreqRun where
  lastFreq : Option Nat
  currTS : ℚ
  currTE : ℚ

def freqStep (s : Option FreqRun × List ℚ) (f : ApFreq) : Option FreqRun × List ℚ :=
  match s with
  | (none, temp) => (some ⟨f.freq, f.tS, f.tE⟩, temp)
  | (some run, temp) =>
    if run.lastFreq = none then (some ⟨f.freq, f.tS, f.tE⟩, temp)
    else if run.lastFreq = f.freq then (some { run with currTE := f.tE }, temp)
    else (some ⟨f.freq, f.tS, f.tE⟩, temp ++ [run.currTE - run.currTS])

/-- The durations of an access point; without a row the difference of `None` is asked for. -/
def freqRuns (apFreqs : List ApFreq) : Except PyError (List ℚ) :=
  match apFreqs.foldl freqStep (none, []) with
  | (none, _) => .error .typeError
  | (some run, temp) => .ok (temp ++ [run.currTE - run.currTS])

/-- What each access point with more than one frequency contributes. The second query is the same
for all of them. -/
def freqContributions (table : List FreqRow) : List (Bssid × Except PyError (List ℚ)) :=
  ((freqCounts table).filter (1 < ·.2)).map fun ap =>
    (ap.1, freqRuns ((orderByStart (table.filter (·.qualifies))).map (·.apFreq)))

/-- `get_freq_change_per_ap`; `stats` are the mean and the deviation that `numpy` computes. -/
def getFreqChangePerAp {σ : Type} (stats : List ℚ → σ) (table : List FreqRow) :
    Except PyError (Nat × Nat × Nat × Option σ) := do
  let res := freqCounts table
  let temps ← (freqContributions table).mapM (·.2)
  let freqDurationList := temps.flatten
  return (res.length, (res.filter (·.2 ≤ 1)).length, (res.filter (1 < ·.2)).length,
    if freqDurationList.length ≠ 0 then some (stats freqDurationList) else none)

/-! ## The durations of the runs -/

def sameFreq (f f' : ApFreq) : Bool := f.freq == f'.freq

def freqDuration (p : ApFreq × ApFreq) : ℚ := p.2.tE - p.1.tS

/-- The loop finds the maximal runs of equal frequency. -/
theorem freqRuns_eq {fs : List ApFreq} (hne : fs ≠ []) (hfreq : ∀ f ∈ fs, f.freq ≠ none) :
    freqRuns fs = .ok ((runEnds sameFreq fs).map freqDuration) := by
  let Inv (init : List (ApFreq × ApFreq)) (first last : ApFreq) (s : Option FreqRun × List ℚ) :
      Prop :=
    s = (some ⟨last.freq, first.tS, last.tE⟩, init.map freqDuration)
  have hextend : ∀ init first b f s, b.freq ≠ none → sameFreq b f = true →
      Inv init first b s → Inv init first f (freqStep s f) := by
    rintro init first b f _ hb hr rfl
    have heq : b.freq = f.freq := by simpa [sameFreq] using hr
    simp only [Inv, freqStep, if_neg hb, if_pos heq]
    rw [heq]
  have hfresh : ∀ init first b f s, b.freq ≠ none → sameFreq b f = false →
      Inv init first b s → Inv (init ++ [(first, b)]) f f (freqStep s f) := by
    rintro init first b f _ hb hr rfl
    have hne : b.freq ≠ f.freq := by simpa [sameFreq] using hr
    simp only [Inv, freqStep, if_neg hb, if_neg hne, List.map_append, List.map_singleton,
      freqDuration]
  obtain ⟨l, last, rfl⟩ := (List.eq_nil_or_concat' fs).resolve_left hne
  obtain ⟨init, first, hends, hrun⟩ := foldl_runEnds (fun f => f.freq ≠ none) Inv
    (fun f _ => show freqStep (none, []) f = _ from rfl) hextend hfresh hfreq
  rw [freqRuns, hrun, hends, List.map_append]
  rfl

/-! ## The function -/

/-- The durations over the records of all access points. -/
def allDurations (table : List FreqRow) : List ℚ :=
  (runEnds sameFreq ((orderByStart (table.filter (·.qualifies))).map (·.apFreq))).map freqDuration

/-- The access points that were seen at more than one frequency. -/
def changedAps (table : List FreqRow) : List (Bssid × Nat) := (freqCounts table).filter (1 < ·.2)

theorem mapM_replicate_ok {α β : Type} {f : α → Except PyError β} {l : List α} {b : β}
    (h : ∀ a ∈ l, f a = .ok b) : l.mapM f = .ok (List.replicate l.length b) := by
  induction l with
  | nil => rfl
  | cons a l ih =>
    obtain ⟨ha, hl⟩ := List.forall_mem_cons.mp h
    rw [List.mapM_cons, ha, ih hl]
    rfl

theorem exists_qualifies {table : List FreqRow} {ap : Bssid × Nat} (h : ap ∈ changedAps table) :
    table.filter (·.qualifies) ≠ [] := by
  obtain ⟨b, hb, -⟩ := List.mem_map.mp (List.mem_filter.mp h).1
  obtain ⟨row, hrow, -⟩ := List.mem_map.mp (List.mem_dedup.mp hb)
  exact List.ne_nil_of_mem hrow

theorem FreqRow.l2Freq_ne_none {row : FreqRow} (h : row.qualifies = true) :
    row.l2Freq ≠ none := by
  rw [FreqRow.qualifies, Bool.and_eq_true, Option.isSome_iff_ne_none] at h
  exact h.1

theorem orderByStart_ne_nil {rows : List FreqRow} (h : rows ≠ []) : orderByStart rows ≠ [] :=
  fun hnil => h (List.nil_perm.mp (hnil ▸ sortBy_perm FreqRow.l2AuthTS rows))

theorem freqRuns_qualified {table : List FreqRow} (hne : table.filter (·.qualifies) ≠ []) :
    freqRuns ((orderByStart (table.filter (·.qualifies))).map (·.apFreq)) =
      .ok (allDurations table) := by
  refine freqRuns_eq (by simpa using orderByStart_ne_nil hne) fun f hf => ?_
  obtain ⟨row, hrow, rfl⟩ := List.mem_map.mp hf
  have hmem := (sortBy_perm FreqRow.l2AuthTS (table.filter (·.qualifies))).mem_iff.mp hrow
  exact FreqRow.l2Freq_ne_none (List.mem_filter.mp hmem).2

/-- The function always returns, and takes the durations over all records once for each access point
that was seen at more than one frequency. -/
theorem getFreqChangePerAp_eq {σ : Type} (stats : List ℚ → σ) (table : List FreqRow) :
    getFreqChangePerAp stats table = .ok
      ((freqCounts table).length, ((freqCounts table).filter (·.2 ≤ 1)).length,
        (changedAps table).length,
        if changedAps table ≠ [] then
          some (stats (List.replicate (changedAps table).length (allDurations table)).flatten)
        else none) := by
  have hcontributions : (freqContributions table).mapM (·.2) =
      .ok (List.replicate (changedAps table).length (allDurations table)) := by
    rw [show (changedAps table).length = (freqContributions table).length by
      rw [freqContributions, List.length_map, changedAps]]
    refine mapM_replicate_ok fun c hc => ?_
    obtain ⟨ap, hap, rfl⟩ := List.mem_map.mp hc
    exact freqRuns_qualified (exists_qualifies hap)
  have hlength :
      (List.replicate (changedAps table).length (allDurations table)).flatten.length ≠ 0 ↔
        changedAps table ≠ [] := by
    rcases eq_or_ne (changedAps table) [] with hnil | hne
    · simp [hnil]
    · obtain ⟨ap, hap⟩ := List.exists_mem_of_ne_nil _ hne
      have hdurations : allDurations table ≠ [] := by
        rw [allDurations, ← List.length_pos_iff, List.length_map, length_runEnds,
          List.length_pos_iff, Ne, List.splitBy_eq_nil, List.map_eq_nil_iff]
        exact orderByStart_ne_nil (exists_qualifies hap)
      simp [hne, hdurations]
  simp only [getFreqChangePerAp, hcontributions]
  change Except.ok _ = Except.ok _
  rw [if_congr hlength rfl rfl]
  rfl

/-- The durations that an access point has of its own. -/
def ownDurations (table : List FreqRow) (ap : Bssid) : List ℚ :=
  (runEnds sameFreq ((orderByStart (table.filter fun row => row.qualifies ∧ row.l2Bssid = ap)).map
    (·.apFreq))).map freqDuration

/-- The access points contribute their own durations, whatever the records of the others are. -/
def ContributesOwn (table : List FreqRow) : Prop :=
  ∀ ap, ∀ table' : List FreqRow,
    table'.filter (·.l2Bssid = ap) = table.filter (·.l2Bssid = ap) →
    ∀ r, (ap, r) ∈ freqContributions table' → r = .ok (ownDurations table ap)

/-! ## A record of another access point -/

/-- The rows of an access point that the queries select. -/
def ownRows (table : List FreqRow) (ap : Bssid) : List FreqRow :=
  table.filter fun row => row.qualifies ∧ row.l2Bssid = ap

theorem ownRows_eq (table : List FreqRow) (ap : Bssid) :
    ownRows table ap = (table.filter (·.l2Bssid = ap)).filter (·.qualifies) := by
  rw [ownRows, List.filter_filter]
  exact List.filter_congr fun row _ => by simp

theorem ownRows_congr {table table' : List FreqRow} {ap : Bssid}
    (h : table'.filter (·.l2Bssid = ap) = table.filter (·.l2Bssid = ap)) :
    ownRows table' ap = ownRows table ap := by
  rw [ownRows_eq, ownRows_eq, h]

theorem mem_freqContributions {table : List FreqRow} {ap : Bssid} {r : Except PyError (List ℚ)} :
    (ap, r) ∈ freqContributions table ↔ 1 < (freqsOf table ap).length ∧
      r = freqRuns ((orderByStart (table.filter (·.qualifies))).map (·.apFreq)) := by
  have hmem (hgt : 1 < (freqsOf table ap).length) :
      ap ∈ (table.filter (·.qualifies)).map (·.l2Bssid) := by
    obtain ⟨f, hf⟩ := List.exists_mem_of_length_pos (by omega : 0 < (freqsOf table ap).length)
    rw [freqsOf, List.mem_dedup, List.mem_map] at hf
    obtain ⟨row, hrow, -⟩ := hf
    obtain ⟨hmem, hcond⟩ := List.mem_filter.mp hrow
    obtain ⟨hq, hap⟩ := decide_eq_true_iff.mp hcond
    exact List.mem_map.mpr ⟨row, List.mem_filter.mpr ⟨hmem, hq⟩, hap⟩
  simp only [freqContributions, freqCounts, List.mem_map, List.mem_filter, List.mem_dedup,
    Prod.mk.injEq, decide_eq_true_eq]
  constructor
  · rintro ⟨p, ⟨⟨ap', -, rfl⟩, hgt⟩, rfl, rfl⟩
    exact ⟨hgt, rfl⟩
  · rintro ⟨hgt, rfl⟩
    refine ⟨(ap, _), ⟨⟨ap, ?_, rfl⟩, hgt⟩, rfl, rfl⟩
    simpa using hmem hgt

/-- The row of another access point that follows a row at the same frequency. -/
def followUp (ap : Bssid) (row : FreqRow) : FreqRow where
  l2Bssid := 'x' :: ap
  l2Freq := row.l2Freq
  l2AuthTS := row.l2AuthTS + 1
  l2ConnTS := row.l2ConnTE + 1
  l2ConnTE := row.l2ConnTE + 1

theorem qualifies_followUp {row : FreqRow} (h : row.qualifies = true) (ap : Bssid) :
    (followUp ap row).qualifies = true := by
  simp [FreqRow.qualifies, followUp, Option.isSome_iff_ne_none, FreqRow.l2Freq_ne_none h,
    maxConnLen]

theorem ownRows_ne_nil {table : List FreqRow} {ap : Bssid}
    (hgt : 1 < (freqsOf table ap).length) : ownRows table ap ≠ [] := by
  intro hnil
  have hzero : freqsOf table ap = [] := by
    change ((ownRows table ap).map (·.l2Freq)).dedup = []
    rw [hnil]
    rfl
  rw [hzero] at hgt
  cases hgt

/-- The row of an access point that starts last. -/
theorem exists_last_row {table : List FreqRow} {ap : Bssid} (h : ownRows table ap ≠ []) :
    ∃ l last, orderByStart (ownRows table ap) = l ++ [last] ∧ last.qualifies = true ∧
      ∀ a ∈ ownRows table ap, a.l2AuthTS ≤ last.l2AuthTS := by
  obtain ⟨l, last, hown⟩ := (List.eq_nil_or_concat' _).resolve_left (orderByStart_ne_nil h)
  refine ⟨l, last, hown, ?_, fun a ha => (key_le_of_sortBy FreqRow.l2AuthTS ha).2 last ?_⟩
  · have hmem : last ∈ orderByStart (ownRows table ap) := by simp [hown]
    have hlast := (sortBy_perm FreqRow.l2AuthTS (ownRows table ap)).mem_iff.mp hmem
    exact (decide_eq_true_iff.mp (List.mem_filter.mp hlast).2).1
  · change last ∈ (orderByStart (ownRows table ap)).getLast?
    rw [hown, List.getLast?_concat]
    rfl

section FollowUp

variable {table : List FreqRow} {ap : Bssid} {l : List FreqRow} {last : FreqRow}

/-- The row of the other access point comes last. -/
theorem orderByStart_followUp (hown : orderByStart (ownRows table ap) = l ++ [last])
    (hqual : last.qualifies = true)
    (hlast : ∀ a ∈ ownRows table ap, a.l2AuthTS ≤ last.l2AuthTS) :
    orderByStart ((table.filter (·.l2Bssid = ap) ++ [followUp ap last]).filter (·.qualifies)) =
      l ++ [last] ++ [followUp ap last] := by
  have hfilter : (table.filter (·.l2Bssid = ap) ++ [followUp ap last]).filter (·.qualifies) =
      ownRows table ap ++ [followUp ap last] := by
    rw [List.filter_append, ← ownRows_eq, List.filter_singleton, qualifies_followUp hqual]
    rfl
  rw [hfilter, orderByStart, sortBy_concat, ← orderByStart, hown]
  intro a ha
  have hle := hlast a ha
  change a.l2AuthTS ≤ last.l2AuthTS + 1
  linarith

/-- The last run goes on to the end of the row of the other access point. -/
theorem allDurations_followUp_ne (hown : orderByStart (ownRows table ap) = l ++ [last])
    (hrows : orderByStart ((table.filter (·.l2Bssid = ap) ++ [followUp ap last]).filter
      (·.qualifies)) = l ++ [last] ++ [followUp ap last]) :
    allDurations (table.filter (·.l2Bssid = ap) ++ [followUp ap last]) ≠
      ownDurations table ap := by
  obtain ⟨init, first, hends, hextend⟩ :=
    runEnds_concat sameFreq (l.map (·.apFreq)) last.apFreq
  have hext := hextend (followUp ap last).apFreq (by simp [sameFreq, followUp, FreqRow.apFreq])
  have hmap : (l ++ [last]).map (·.apFreq) = l.map (·.apFreq) ++ [last.apFreq] := by simp
  have hdur : ownDurations table ap = (init ++ [(first, last.apFreq)]).map freqDuration := by
    change (runEnds sameFreq ((orderByStart (ownRows table ap)).map (·.apFreq))).map _ = _
    rw [hown, hmap, hends]
  rw [allDurations, hrows, hdur, List.map_append, hmap, List.map_singleton, hext]
  intro heq
  simp only [List.map_append, List.map_singleton, List.append_cancel_left_eq, List.cons.injEq,
    and_true, freqDuration, FreqRow.apFreq, followUp] at heq
  linarith

end FollowUp

/-- An access point with more than one frequency loses its own durations when another access point
is seen after it at its last frequency. -/
theorem exists_foreign_row {table : List FreqRow} {ap : Bssid}
    (hgt : 1 < (freqsOf table ap).length) :
    ∃ table' : List FreqRow, table'.filter (·.l2Bssid = ap) = table.filter (·.l2Bssid = ap) ∧
      ∃ r, (ap, r) ∈ freqContributions table' ∧ r ≠ .ok (ownDurations table ap) := by
  obtain ⟨l, last, hown, hqual, hlast⟩ := exists_last_row (ownRows_ne_nil hgt)
  have hrows := orderByStart_followUp hown hqual hlast
  have hsame : (table.filter (·.l2Bssid = ap) ++ [followUp ap last]).filter (·.l2Bssid = ap) =
      table.filter (·.l2Bssid = ap) := by
    simp [followUp]
  have hne :
      (table.filter (·.l2Bssid = ap) ++ [followUp ap last]).filter (·.qualifies) ≠ [] := by
    intro hnil
    rw [hnil] at hrows
    simp [orderByStart, sortBy] at hrows
  refine ⟨_, hsame, _, mem_freqContributions.mpr ⟨?_, rfl⟩, ?_⟩
  · change 1 < ((ownRows _ ap).map (·.l2Freq)).dedup.length
    rw [ownRows_congr hsame]
    exact hgt
  · rw [freqRuns_qualified hne]
    exact fun heq => allDurations_followUp_ne hown hrows (Except.ok.inj heq)

theorem contributes_own_iff (table : List FreqRow) :
    ContributesOwn table ↔ ∀ ap, (freqsOf table ap).length ≤ 1 := by
  constructor
  · intro h ap
    by_contra hgt
    obtain ⟨table', hsame, r, hr, hne⟩ := exists_foreign_row (not_le.mp hgt)
    exact hne (h ap table' hsame r hr)
  · intro h ap table' hsame r hr
    have hgt := (mem_freqContributions.mp hr).1
    have hle := h ap
    change 1 < ((ownRows table' ap).map (·.l2Freq)).dedup.length at hgt
    rw [ownRows_congr hsame] at hgt
    exact absurd hgt (not_lt.mpr hle)

/-- Two records of the access point `a` at two frequencies, and one of `b`. -/
def twoAps : List FreqRow :=
  [⟨['a'], some 2412, 0, 1, 10⟩, ⟨['a'], some 5180, 20, 21, 30⟩,
    ⟨['b'], some 5180, 40, 41, 50⟩]

/-- The second duration of `a` goes on to the end of the record of `b`. -/
theorem foreign_record_counted :
    (freqContributions twoAps).map (fun c => (c.1, c.2.toOption)) = [(['a'], some [10, 30])] ∧
      ownDurations twoAps ['a'] = [10, 10] ∧ ¬ContributesOwn twoAps := by
  have hout : (freqContributions twoAps).map (fun c => (c.1, c.2.toOption)) =
      [(['a'], some [10, 30])] := by
    decide +kernel
  have hown : ownDurations twoAps ['a'] = [10, 10] := by decide +kernel
  refine ⟨hout, hown, fun h => ?_⟩
  obtain ⟨c, hc, heq⟩ := List.mem_map.mp (hout ▸ List.mem_singleton.mpr rfl :
    (['a'], some [10, 30]) ∈ (freqContributions twoAps).map fun c => (c.1, c.2.toOption))
  obtain ⟨ap, r⟩ := c
  obtain ⟨rfl, hr⟩ := Prod.mk.inj heq
  rw [h _ twoAps rfl r hc, hown] at hr
  norm_num [Except.toOption] at hr

end CarFi.Analyzer

import CarFi.Analyzer.WpaBlocks
import Mathlib.Algebra.Order.Ring.Rat

/-!
# The order of the phase times of a record

The eight times of a record are read at four rows and at the end of the block. On a log whose
timestamps do not decrease the end is never early, but the four rows are chosen
independently: the last authentication, the last association request, the last association
and the *first* completion. The record is in phase order exactly when the client does not go
back to a phase after the row that stands for a later one.
-/
namespace CarFi.Analyzer

open Library Library.Regex Library.PyText

/-- The defined times of a record, in the order of the phases. -/
def InfoBlk.phaseTimes (record : InfoBlk) : List ℚ :=
  [record.tAuthS, record.tAuthE, record.tAssocS, record.tAssocE, record.tHsS, record.tHsE,
   record.tConnS, record.tConnE].reduceOption

def InfoBlk.PhaseOrdered (record : InfoBlk) : Prop := record.phaseTimes.Pairwise (· ≤ ·)

instance (record : InfoBlk) : Decidable record.PhaseOrdered :=
  inferInstanceAs (Decidable (record.phaseTimes.Pairwise (· ≤ ·)))

/-- The timestamp of `a` is not later than that of `b`, where both have one. -/
def NotLater (a b : Row) : Prop := ∀ s t, stamp a = .ok s → stamp b = .ok t → s ≤ t

instance : DecidableRel NotLater := fun a b =>
  match ha : stamp a, hb : stamp b with
  | .ok s, .ok t => decidable_of_iff (s ≤ t) (by simp [NotLater, ha, hb])
  | .error _, _ => isTrue fun s t hs _ => by simp [ha] at hs
  | .ok _, .error _ => isTrue fun s t _ ht => by simp [hb] at ht

/-- The timestamps of the log rows do not decrease. -/
def TimeOrdered (rows : List Row) : Prop :=
  (rows.filter fun row => (nicOf row).isSome).Pairwise NotLater

instance (rows : List Row) : Decidable (TimeOrdered rows) :=
  inferInstanceAs (Decidable (List.Pairwise _ _))

/-- The row at a noted index; the first row of a block counts as no row. -/
def notedRow (blk : List Row) : Option Nat → Option Row
  | some (i + 1) => blk[i + 1]?
  | _ => none

/-- The row that stands for a phase: the last row that enters it, and for the completion the
first. -/
def phaseRow (blk : List Row) (st : WPAState) : Option Row :=
  if st = .completed then notedRow blk (blk.findIdx? (enters st))
  else notedRow blk (lastIdx? (enters st) blk)

/-- The phases of an association, in their order. -/
def phases : List WPAState := [.authing, .associng, .assoced, .completed]

def phaseRows (blk : List Row) : List Row := phases.filterMap (phaseRow blk)

/-- No change to a phase comes later than the row that stands for a later phase: a client that
goes back to an earlier phase goes through the later ones again, and never goes back once the
connection is complete. -/
def NoRestart (blk : List Row) : Prop :=
  phases.Pairwise fun st st' => ∀ row ∈ blk, enters st row = true →
    ∀ later ∈ phaseRow blk st', NotLater row later

/-! ## Times and rows -/

/-- A time read at an optional row. -/
inductive StampOf : Option Row → Option ℚ → Prop
  | none : StampOf none none
  | some {row : Row} {t : ℚ} (h : stamp row = .ok t) : StampOf (some row) (some t)

theorem optTimeAt_stampOf {blk : List Row} {id : Option Nat} {t : Option ℚ}
    (h : optTimeAt blk id = .ok t) : StampOf (notedRow blk id) t := by
  unfold optTimeAt at h
  split at h
  · rename_i i
    unfold timeAt at h
    simp only [notedRow]
    cases hrow : blk[i + 1]? with
    | none => simp [hrow, Except.map] at h
    | some row =>
      cases ht : stamp row with
      | error e => simp [hrow, ht, Except.map] at h
      | ok s =>
        obtain rfl : some s = t := by simpa [hrow, ht, Except.map] using h
        exact .some ht
  · rename_i hid
    cases h
    unfold notedRow
    split
    · exact absurd rfl (hid _)
    · exact .none

theorem reduceOption_stamps {rows : List (Option Row)} {times : List (Option ℚ)}
    (h : List.Forall₂ StampOf rows times) :
    List.Forall₂ (fun row t => stamp row = .ok t) rows.reduceOption times.reduceOption := by
  induction h with
  | nil => simp [List.reduceOption_nil]
  | cons hrow _ ih =>
    cases hrow with
    | none => simpa using ih
    | some hrow => simpa using ⟨hrow, ih⟩

theorem notLater_forall_iff {row : Row} {t : ℚ} (hrow : stamp row = .ok t) {rows : List Row}
    {times : List ℚ} (h : List.Forall₂ (fun row t => stamp row = .ok t) rows times) :
    (∀ later ∈ rows, NotLater row later) ↔ ∀ u ∈ times, t ≤ u := by
  induction h with
  | nil => simp
  | cons hlater _ ih =>
    simp only [List.mem_cons, forall_eq_or_imp, ih]
    refine and_congr_left fun _ => ?_
    simp [NotLater, hrow, hlater]

/-- Rows are in order exactly when the times read at them are. -/
theorem pairwise_notLater_iff {rows : List Row} {times : List ℚ}
    (h : List.Forall₂ (fun row t => stamp row = .ok t) rows times) :
    rows.Pairwise NotLater ↔ times.Pairwise (· ≤ ·) := by
  induction h with
  | nil => simp
  | cons hrow hrest ih => simp only [List.pairwise_cons, notLater_forall_iff hrow hrest, ih]

/-- Doubling the inner times and appending a last one keeps the order. -/
theorem pairwise_phases_iff {a b c d e : Option ℚ}
    (hlast : ∀ t ∈ [a, b, c, d].reduceOption, ∀ u ∈ e, t ≤ u) :
    [a, b, b, c, c, d, d, e].reduceOption.Pairwise (· ≤ ·) ↔
      [a, b, c, d].reduceOption.Pairwise (· ≤ ·) := by
  have hself (o : Option ℚ) : ∀ t, id o = some t → ∀ u, id o = some u → t ≤ u :=
    fun t ht u hu => (Option.some.inj (ht.symm.trans hu)).le
  have hend : ∀ o ∈ [a, b, c, d], ∀ t, id o = some t → ∀ u, id e = some u → t ≤ u :=
    fun o ho t ht u hu => hlast t (List.reduceOption_mem_iff.mpr (ht ▸ ho)) u hu
  simp only [List.reduceOption, List.pairwise_filterMap, List.pairwise_cons, List.forall_mem_cons,
    List.not_mem_nil, false_imp_iff, implies_true, List.Pairwise.nil, and_true] at hend ⊢
  obtain ⟨hae, hbe, hce, hde⟩ := hend
  constructor
  · rintro ⟨⟨hab, -, hac, -, had, -⟩, ⟨-, hbc, -, hbd, -⟩, -, ⟨-, hcd, -⟩, -⟩
    exact ⟨⟨hab, hac, had⟩, ⟨hbc, hbd⟩, hcd⟩
  · rintro ⟨⟨hab, hac, had⟩, ⟨hbc, hbd⟩, hcd⟩
    exact ⟨⟨hab, hab, hac, hac, had, had, hae⟩,
      ⟨hself b, hbc, hbc, hbd, hbd, hbe⟩, ⟨hbc, hbc, hbd, hbd, hbe⟩,
      ⟨hself c, hcd, hcd, hce⟩, ⟨hcd, hcd, hce⟩, ⟨hself d, hde⟩, hde⟩

theorem notedRow_eq_some {blk : List Row} {id : Option Nat} {row : Row}
    (h : notedRow blk id = some row) : ∃ i, id = some (i + 1) ∧ blk[i + 1]? = some row := by
  unfold notedRow at h
  split at h
  · exact ⟨_, rfl, h⟩
  · cases h

/-- The last row of a block in time order is not earlier than any row of the block. -/
theorem notLater_last {blk : List Row} (hblk : blk.Pairwise NotLater) {row last : Row}
    (hrow : row ∈ blk) (hlast : blk[blk.length - 1]? = some last) : NotLater row last := by
  obtain ⟨i, hi, rfl⟩ := List.mem_iff_getElem.mp hrow
  obtain ⟨hl, rfl⟩ := List.getElem?_eq_some_iff.mp hlast
  rcases Nat.lt_or_ge i (blk.length - 1) with hlt | hge
  · exact List.pairwise_iff_getElem.mp hblk i _ hi hl hlt
  · intro s t hs ht
    obtain rfl : i = blk.length - 1 := by omega
    have : s = t := Except.ok.inj (hs.symm.trans ht)
    exact this.le

theorem phaseRow_eq_some {blk : List Row} {st : WPAState} {row : Row}
    (h : phaseRow blk st = some row) : ∃ i, blk[i + 1]? = some row := by
  unfold phaseRow at h
  split at h
  all_goals
    obtain ⟨i, -, hi⟩ := notedRow_eq_some h
    exact ⟨i, hi⟩

/-- Four times of a record are read at the rows of the phases. -/
theorem stampOf_phaseRow {blk : List Row} {record : InfoBlk}
    (h : blockRecord blk = .ok (some record)) :
    StampOf (phaseRow blk .authing) record.tAuthS ∧
      StampOf (phaseRow blk .associng) record.tAssocS ∧
      StampOf (phaseRow blk .assoced) record.tHsS ∧
      StampOf (phaseRow blk .completed) record.tConnS := by
  obtain ⟨i, hi, -, hread⟩ := blockRecord_eq_some h
  have hauthS : optTimeAt blk (lastIdx? (enters .authing) blk) = .ok record.tAuthS := by
    rw [hi]
    exact hread.tAuthS
  exact ⟨optTimeAt_stampOf hauthS, optTimeAt_stampOf hread.tAssocS, optTimeAt_stampOf hread.tHsS,
    optTimeAt_stampOf hread.tConnS⟩

/-- A connection ends at the last row of its block. -/
theorem exists_last_of_tConnE {blk : List Row} {record : InfoBlk}
    (h : blockRecord blk = .ok (some record)) {u : ℚ} (hu : u ∈ record.tConnE) :
    ∃ last, blk[blk.length - 1]? = some last ∧ stamp last = .ok u := by
  obtain ⟨_, _, _, hread⟩ := blockRecord_eq_some h
  have hend := optTimeAt_stampOf hread.tConnE
  rw [Option.mem_def.mp hu] at hend
  cases hnoted : notedRow blk (blockIndices blk).connE with
  | none => rw [hnoted] at hend; cases hend
  | some last =>
    rw [hnoted] at hend
    cases hend with
    | some hstamp =>
      obtain ⟨j, hj, hlast⟩ := notedRow_eq_some hnoted
      obtain ⟨-, hj⟩ : _ ∧ blk.length - 1 = j + 1 := by simpa [blockIndices] using hj
      exact ⟨last, by rwa [hj], hstamp⟩

/-- The times of a record are in order exactly when the rows of the phases are. -/
theorem phaseOrdered_iff_rows {blk : List Row} {record : InfoBlk}
    (h : blockRecord blk = .ok (some record)) (hblk : blk.Pairwise NotLater) :
    record.PhaseOrdered ↔ (phaseRows blk).Pairwise NotLater := by
  obtain ⟨_, _, _, hread⟩ := blockRecord_eq_some h
  obtain ⟨hauth, hassoc, hassoced, hcompleted⟩ := stampOf_phaseRow h
  have hAssoc : record.tAuthE = record.tAssocS :=
    Except.ok.inj (hread.tAuthE.symm.trans hread.tAssocS)
  have hHs : record.tAssocE = record.tHsS := Except.ok.inj (hread.tAssocE.symm.trans hread.tHsS)
  have hConn : record.tHsE = record.tConnS := Except.ok.inj (hread.tHsE.symm.trans hread.tConnS)
  have hstamps := reduceOption_stamps (.cons hauth (.cons hassoc (.cons hassoced
    (.cons hcompleted .nil))))
  unfold InfoBlk.PhaseOrdered InfoBlk.phaseTimes
  rw [hAssoc, hHs, hConn, pairwise_phases_iff, ← pairwise_notLater_iff hstamps]
  · rfl
  · intro t ht u hu
    obtain ⟨row, hrow, ht⟩ := (mem_right_iff_of_forall₂
      (fun _ _ _ hb hb' => Except.ok.inj (hb.symm.trans hb')) hstamps).mp ht
    obtain ⟨last, hlast, hu⟩ := exists_last_of_tConnE h hu
    refine notLater_last hblk ?_ hlast t u ht hu
    obtain ⟨st, -, hst⟩ := List.mem_filterMap.mp (show row ∈ phaseRows blk from hrow)
    obtain ⟨j, hj⟩ := phaseRow_eq_some hst
    exact List.mem_of_getElem? hj

/-- The last row that enters a phase stands for all rows that enter it. -/
theorem notLater_phaseRow_iff {blk : List Row} (hblk : blk.Pairwise NotLater) {st : WPAState}
    (hst : st ≠ .completed) (hstamp : ∀ row ∈ phaseRow blk st, ∃ t, stamp row = .ok t)
    {j : Nat} {later : Row} (hlater : blk[j + 1]? = some later) :
    (∀ row ∈ phaseRow blk st, NotLater row later) ↔
      ∀ row ∈ blk, enters st row = true → NotLater row later := by
  simp only [phaseRow, if_neg hst] at hstamp ⊢
  cases hlast : lastIdx? (enters st) blk with
  | none =>
    have hnone := lastIdx?_eq_none.mp hlast
    refine ⟨fun _ row hrow henters => ?_, fun _ row hrow => by simp [notedRow] at hrow⟩
    simp [hnone row hrow] at henters
  | some i =>
    obtain ⟨last, hi, henters, hafter⟩ := lastIdx?_eq_some hlast
    have hbefore : ∀ row ∈ blk, enters st row = true → row = last ∨ NotLater row last := by
      intro row hrow hr
      obtain ⟨k, hk, rfl⟩ := List.mem_iff_getElem.mp hrow
      obtain ⟨hil, hieq⟩ := List.getElem?_eq_some_iff.mp hi
      rcases Nat.lt_trichotomy k i with hlt | rfl | hgt
      · exact .inr (hieq ▸ List.pairwise_iff_getElem.mp hblk k i hk hil hlt)
      · exact .inl hieq
      · simp [hafter k _ hgt (List.getElem?_eq_getElem hk)] at hr
    have hzero : i = 0 → NotLater last later := by
      rintro rfl
      obtain ⟨h0, rfl⟩ := List.getElem?_eq_some_iff.mp hi
      obtain ⟨hj, rfl⟩ := List.getElem?_eq_some_iff.mp hlater
      exact List.pairwise_iff_getElem.mp hblk 0 (j + 1) h0 hj (by omega)
    have hall : NotLater last later ↔ ∀ row ∈ blk, enters st row = true →
        NotLater row later := by
      refine ⟨fun hle row hrow hr => ?_, fun h => h last (List.mem_of_getElem? hi) henters⟩
      rcases hbefore row hrow hr with rfl | hle'
      · exact hle
      · cases i with
        | zero =>
          -- the first row is the only one that enters the phase
          obtain ⟨k, hk, rfl⟩ := List.mem_iff_getElem.mp hrow
          rcases Nat.eq_zero_or_pos k with rfl | hpos
          · rwa [← Option.some.inj (hi.symm.trans (List.getElem?_eq_getElem hk))]
          · simp [hafter k _ hpos (List.getElem?_eq_getElem hk)] at hr
        | succ i =>
          obtain ⟨t, ht⟩ := hstamp last (by simp [hlast, notedRow, hi])
          exact fun a b ha hb => (hle' a t ha ht).trans (hle t b ht hb)
    cases i with
    | zero => simpa [notedRow] using hall.mp (hzero rfl)
    | succ i => simpa [notedRow, hi] using hall

/-- In time order, the rows of the phases are in order exactly when no phase is restarted. -/
theorem pairwise_phaseRows_iff {blk : List Row} (hblk : blk.Pairwise NotLater)
    (hstamp : ∀ st ∈ phases, ∀ row ∈ phaseRow blk st, ∃ t, stamp row = .ok t) :
    (phaseRows blk).Pairwise NotLater ↔ NoRestart blk := by
  have hpair : ∀ st ∈ phases, st ≠ .completed → ∀ st',
      (∀ row ∈ phaseRow blk st, ∀ later ∈ phaseRow blk st', NotLater row later) ↔
        ∀ row ∈ blk, enters st row = true →
          ∀ later ∈ phaseRow blk st', NotLater row later := by
    intro st hmem hst st'
    cases hlater : phaseRow blk st' with
    | none => simp
    | some later =>
      obtain ⟨j, hj⟩ := phaseRow_eq_some hlater
      simpa using notLater_phaseRow_iff hblk hst (hstamp st hmem) hj
  have hauth := hpair .authing (by decide) (by decide)
  have hassoc := hpair .associng (by decide) (by decide)
  have hassoced := hpair .assoced (by decide) (by decide)
  simp only [Option.mem_def] at hauth hassoc hassoced
  rw [phaseRows, List.pairwise_filterMap, NoRestart]
  simp only [phases, List.pairwise_cons, List.forall_mem_cons, Option.mem_def, hauth, hassoc,
    hassoced]
  simp

theorem stamped_of_stampOf {blk : List Row} {st : WPAState} {t : Option ℚ}
    (h : StampOf (phaseRow blk st) t) : ∀ row ∈ phaseRow blk st, ∃ t, stamp row = .ok t := by
  intro row hrow
  rw [Option.mem_def.mp hrow] at h
  cases h with
  | some h => exact ⟨_, h⟩

theorem phaseOrdered_iff_noRestart {blk : List Row} {record : InfoBlk}
    (h : blockRecord blk = .ok (some record)) (hblk : blk.Pairwise NotLater) :
    record.PhaseOrdered ↔ NoRestart blk := by
  obtain ⟨hauth, hassoc, hassoced, hcompleted⟩ := stampOf_phaseRow h
  rw [phaseOrdered_iff_rows h hblk, pairwise_phaseRows_iff hblk]
  simp only [phases, List.forall_mem_cons]
  exact ⟨stamped_of_stampOf hauth, stamped_of_stampOf hassoc, stamped_of_stampOf hassoced,
    stamped_of_stampOf hcompleted, by simp⟩

/-- Every record the parser emits has its defined times in phase order exactly when no block
that requests an authentication restarts a phase. -/
theorem parse_phaseOrdered_iff {intfList : List Intf} {rows : List Row}
    {out : Intf → List InfoBlk} (h : WPAParser.parse intfList rows = .ok out)
    (htime : TimeOrdered rows) :
    (∀ intf ∈ intfList, ∀ record ∈ out intf, record.PhaseOrdered) ↔
      ∀ intf ∈ intfList, ∀ blk ∈ blocksOf intf rows, RequestsAuth blk →
        NoRestart blk := by
  refine forall₂_congr fun intf hintf => ?_
  have hblocks : ∀ blk ∈ blocksOf intf rows, blk.Pairwise NotLater := by
    intro blk hblk
    obtain ⟨_, _, _, _, hin, _⟩ := mem_closedBlocks hblk
    refine htime.sublist (hin.sublist.trans (List.monotone_filter_right _ fun row hrow => ?_))
    simp only [decide_eq_true_eq] at hrow
    simp [hrow]
  simp only [mem_parse h hintf]
  constructor
  · intro hall blk hblk hauth
    obtain ⟨record, hrecord⟩ := (exists_record_iff_requestsAuth h hintf hblk).mpr hauth
    exact (phaseOrdered_iff_noRestart hrecord (hblocks blk hblk)).mp
      (hall record ⟨blk, hblk, hrecord⟩)
  · rintro hall record ⟨blk, hblk, hrecord⟩
    have hauth := (exists_record_iff_requestsAuth h hintf hblk).mp ⟨record, hrecord⟩
    exact (phaseOrdered_iff_noRestart hrecord (hblocks blk hblk)).mpr (hall blk hblk hauth)

/-! ## A roaming client -/

/-- A client that connects, roams and is disconnected while it authenticates again. -/
def roamLog : List Row :=
  ["1.0: wlan0: State: DISCONNECTED -> SCANNING\n".toList,
   "2.0: wlan0: SME: Trying to authenticate with 02:00:00:00:00:0a (SSID='x' freq=2412 MHz)\n"
     |>.toList,
   "2.0: wlan0: State: SCANNING -> AUTHENTICATING\n".toList,
   "3.0: wlan0: State: AUTHENTICATING -> ASSOCIATING\n".toList,
   "4.0: wlan0: State: ASSOCIATING -> ASSOCIATED\n".toList,
   "5.0: wlan0: State: ASSOCIATED -> COMPLETED\n".toList,
   "6.0: wlan0: SME: Trying to authenticate with 02:00:00:00:00:0b (SSID='x' freq=2437 MHz)\n"
     |>.toList,
   "6.0: wlan0: State: COMPLETED -> AUTHENTICATING\n".toList,
   "7.0: wlan0: State: AUTHENTICATING -> DISCONNECTED\n".toList]

theorem roamLog_run : TimeOrdered roamLog ∧
    emits (fun record => !decide record.PhaseOrdered) ["wlan0".toList] roamLog "wlan0".toList := by
  simp only [roamLog, String.reduceToList]
  decide +kernel

/-- The record of the roaming client starts to authenticate after it started to associate. -/
theorem roam_not_phaseOrdered :
    TimeOrdered roamLog ∧ ∃ out, WPAParser.parse ["wlan0".toList] roamLog = .ok out ∧
      ∃ record ∈ out "wlan0".toList, ¬ record.PhaseOrdered := by
  obtain ⟨out, hout, record, hrecord, hnot⟩ := exists_record_of_emits roamLog_run.2
  exact ⟨roamLog_run.1, out, hout, record, hrecord, by simpa using hnot⟩

theorem parse_phaseOrdered_iff_roamLog :
    ∃ out, WPAParser.parse ["wlan0".toList] roamLog = .ok out ∧
      ((∀ intf ∈ ["wlan0".toList], ∀ record ∈ out intf, record.PhaseOrdered) ↔
        ∀ intf ∈ ["wlan0".toList], ∀ blk ∈ blocksOf intf roamLog, RequestsAuth blk →
          NoRestart blk) := by
  obtain ⟨out, hout, -⟩ := exists_record_of_emits roamLog_run.2
  exact ⟨out, hout, parse_phaseOrdered_iff hout roamLog_run.1⟩

end CarFi.Analyzer

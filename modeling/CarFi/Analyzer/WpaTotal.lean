import CarFi.Analyzer.WpaBlocks

/-!
# When the WPA parser does not raise

What the parser needs from its rows: a change of state starts in the current state and its
timestamp is a number, and a selection stands two rows below a row with a level. `row_total`
is one row, and the record of a closed block is then read without an error.
-/
namespace CarFi.Analyzer

open Library Library.Regex Library.PyText

/-- The row holds a level that is a number. -/
def HasLevel (row : Row) : Prop :=
  ∃ m level, exec ssRe row = some m ∧ int (m.group 1) = some level

structure Readable (blk : List Row) : Prop where
  stamped : ∀ row ∈ blk, (exec stateRe row).isSome → ∃ t, stamp row = .ok t
  leveled : ∀ j row, blk[j]? = some row → (exec bssRe row).isSome →
    ∃ i above, j = i + 2 ∧ blk[i]? = some above ∧ HasLevel above

theorem readable_nil : Readable [] := ⟨by simp, by simp⟩

theorem Readable.concat {blk : List Row} {row : Row} (h : Readable blk)
    (hstamp : (exec stateRe row).isSome → ∃ t, stamp row = .ok t)
    (hlevel : (exec bssRe row).isSome → ∃ i above, blk.length = i + 2 ∧
      blk[i]? = some above ∧ HasLevel above) : Readable (blk ++ [row]) := by
  have hkeep : ∀ {i : Nat} {above : Row}, blk[i]? = some above →
      (blk ++ [row])[i]? = some above := by
    intro i above hi
    rw [List.getElem?_append_left (List.getElem?_eq_some_iff.mp hi).1, hi]
  refine ⟨fun r hr => ?_, fun j r hj hr => ?_⟩
  · rcases List.mem_append.mp hr with hr | hr
    · exact h.stamped r hr
    · rw [List.mem_singleton.mp hr]
      exact hstamp
  · rcases Nat.lt_or_ge j blk.length with hlt | hge
    · rw [List.getElem?_append_left hlt] at hj
      obtain ⟨i, above, hij, hi, habove⟩ := h.leveled j r hj hr
      exact ⟨i, above, hij, hkeep hi, habove⟩
    · rw [List.getElem?_append_right hge] at hj
      obtain ⟨hj0, rfl⟩ : j - blk.length = 0 ∧ row = r := by
        rw [List.getElem?_singleton] at hj
        split at hj
        · exact ⟨‹_›, by simpa using hj⟩
        · cases hj
      obtain ⟨i, above, hij, hi, habove⟩ := hlevel hr
      exact ⟨i, above, by omega, hkeep hi, habove⟩

/-! ## The record of a readable block -/

theorem levelAt_total {blk : List Row} {i : Nat} {above : Row} (hi : blk[i]? = some above)
    (h : HasLevel above) : ∃ level, levelAt blk (i + 2) = .ok level := by
  obtain ⟨m, level, hm, hlevel⟩ := h
  have hitem : item? blk (((i + 2 : Nat) : Int) - levelOffset) = some above := by
    simp [item?, levelOffset, hi]
  exact ⟨level, by simp only [levelAt, hitem, hm, hlevel]⟩

theorem levelLoop_total {blk : List Row} (h : Readable blk) {n : Nat} (hn : n < blk.length)
    (level : Option Int) : ∃ res, levelLoop blk n level = .ok res := by
  have hstep : ∀ n < blk.length, ∀ level, ∃ res, levelStep blk n level = .ok res := by
    intro n hn level
    have hrow : blk[n]? = some blk[n] := List.getElem?_eq_getElem hn
    simp only [levelStep, hrow]
    split
    · rename_i hsel
      obtain ⟨i, above, rfl, hi, habove⟩ := h.leveled n _ hrow hsel
      obtain ⟨l, hl⟩ := levelAt_total hi habove
      exact ⟨some l, by simp [hl, Except.map]⟩
    · exact ⟨level, rfl⟩
  induction n generalizing level with
  | zero => exact hstep 0 hn level
  | succ n ih =>
    obtain ⟨mid, hmid⟩ := hstep (n + 1) hn level
    obtain ⟨res, hres⟩ := ih (by omega) mid
    exact ⟨res, by simp only [levelLoop, hmid, hres]⟩

/-- A state is entered at the row with the index `id`, if there is one. -/
def EnteredAt (blk : List Row) (id : Option Nat) : Prop :=
  ∀ i ∈ id, ∃ row st, blk[i]? = some row ∧ enters st row = true

theorem enteredAt_lastIdx? (blk : List Row) (st : WPAState) :
    EnteredAt blk (lastIdx? (enters st) blk) := by
  intro i hi
  obtain ⟨row, hrow, henters, -⟩ := lastIdx?_eq_some (Option.mem_def.mp hi)
  exact ⟨row, st, hrow, henters⟩

theorem enteredAt_findIdx? (blk : List Row) (st : WPAState) :
    EnteredAt blk (blk.findIdx? (enters st)) := by
  intro i hi
  obtain ⟨hlt, henters, -⟩ := List.findIdx?_eq_some_iff_getElem.mp (Option.mem_def.mp hi)
  exact ⟨blk[i], st, List.getElem?_eq_getElem hlt, henters⟩

theorem isSome_of_enters {st : WPAState} {row : Row} (h : enters st row = true) :
    (exec stateRe row).isSome := by
  cases hm : exec stateRe row with
  | none => simp [enters, hm] at h
  | some m => rfl

theorem timeAt_total {blk : List Row} (h : Readable blk) {i : Nat} (hi : EnteredAt blk (some i)) :
    ∃ t, timeAt blk i = .ok t := by
  obtain ⟨row, st, hrow, henters⟩ := hi i rfl
  obtain ⟨t, ht⟩ := h.stamped row (List.mem_of_getElem? hrow) (isSome_of_enters henters)
  exact ⟨t, by simp only [timeAt, hrow, ht]⟩

theorem optTimeAt_total {blk : List Row} (h : Readable blk) {id : Option Nat}
    (hid : EnteredAt blk id) : ∃ t, optTimeAt blk id = .ok t := by
  unfold optTimeAt
  split
  · obtain ⟨t, ht⟩ := timeAt_total h hid
    exact ⟨some t, by simp [ht, Except.map]⟩
  · exact ⟨none, rfl⟩

theorem InfoBlk.parse_total {blk : List Row} {idAuthS : Nat} {ids : Indices} {isReassoc : Bool}
    (hlevel : ∃ level, selectionLevel blk idAuthS isReassoc = .ok level)
    (htime : ∃ t, timeAt blk idAuthS = .ok t)
    (hids : ∀ id ∈ [ids.authE, ids.assocS, ids.assocE, ids.hsS, ids.hsE, ids.connS, ids.connE],
      ∃ t, optTimeAt blk id = .ok t)
    (hfreq : ∃ freq, freqMatchAt blk idAuthS = .ok freq) :
    ∃ record, InfoBlk.parse blk idAuthS ids isReassoc = .ok record := by
  obtain ⟨level, hlevel⟩ := hlevel
  obtain ⟨tAuthS, htime⟩ := htime
  obtain ⟨freq, hfreq⟩ := hfreq
  simp only [List.forall_mem_cons] at hids
  obtain ⟨⟨_, h1⟩, ⟨_, h2⟩, ⟨_, h3⟩, ⟨_, h4⟩, ⟨_, h5⟩, ⟨_, h6⟩,
      ⟨_, h7⟩, -⟩ := hids
  simp [InfoBlk.parse, hlevel, htime, h1, h2, h3, h4, h5, h6, h7, hfreq, bind, Except.bind, pure,
    Except.pure]

/-- A readable block that ends with a disconnection is read without an error. -/
theorem blockRecord_total {body : List Row} {row : Row} (h : Readable (body ++ [row]))
    (hrow : enters .disconn row = true) : ∃ record, blockRecord (body ++ [row]) = .ok record := by
  have hconnE : EnteredAt (body ++ [row]) (blockIndices (body ++ [row])).connE := by
    intro i hi
    simp only [blockIndices, Option.mem_def] at hi
    split at hi
    · obtain rfl : i = body.length := by simpa using hi.symm
      exact ⟨row, .disconn, by simp, hrow⟩
    · cases hi
  unfold blockRecord
  split
  · rename_i i hi
    have hauth := enteredAt_lastIdx? (body ++ [row]) .authing
    rw [show lastIdx? (enters .authing) (body ++ [row]) = some (i + 1) from hi] at hauth
    obtain ⟨_, _, hlast, _⟩ := hauth (i + 1) rfl
    have hlt := (List.getElem?_eq_some_iff.mp hlast).1
    obtain ⟨record, hrecord⟩ : ∃ record, InfoBlk.parse (body ++ [row]) (i + 1)
        (blockIndices (body ++ [row])) (isReassocBlock (body ++ [row])) = .ok record := by
      refine InfoBlk.parse_total ?_ (timeAt_total h hauth) ?_ ?_
      · unfold selectionLevel
        split
        · exact ⟨some 0, rfl⟩
        · exact levelLoop_total h hlt none
      · simp only [List.forall_mem_cons]
        refine ⟨?_, ?_, ?_, ?_, ?_, ?_, optTimeAt_total h hconnE, by simp⟩
        · exact optTimeAt_total h (enteredAt_lastIdx? _ .associng)
        · exact optTimeAt_total h (enteredAt_lastIdx? _ .associng)
        · exact optTimeAt_total h (enteredAt_lastIdx? _ .assoced)
        · exact optTimeAt_total h (enteredAt_lastIdx? _ .assoced)
        · exact optTimeAt_total h (enteredAt_findIdx? _ .completed)
        · exact optTimeAt_total h (enteredAt_findIdx? _ .completed)
      · rw [freqMatchAt_succ, List.getElem?_eq_getElem (by omega : i < (body ++ [row]).length)]
        exact ⟨_, rfl⟩
    exact ⟨_, congrArg (Except.map _) hrecord⟩
  · exact ⟨none, rfl⟩

/-! ## One row -/

/-- The row is read without an error in the state `st`. -/
def Admissible (st : WPAState) (row : Row) : Prop :=
  exec stateRe row = none ∨ ∃ m post, exec stateRe row = some m ∧
    WPAState.ofName (m.group 3) = some st ∧ WPAState.ofName (m.group 4) = some post

/-- The state after a row. -/
def stateAfter (st : WPAState) (row : Row) : WPAState :=
  ((exec stateRe row).bind fun m => WPAState.ofName (m.group 4)).getD st

theorem ParsingState.admissible_of_row {ps ps' : ParsingState} {row : Row}
    (h : ps.row row = .ok ps') : Admissible ps.wpaState row := by
  unfold ParsingState.row at h
  cases hm : exec stateRe row with
  | none => exact .inl hm
  | some m =>
    simp only [hm] at h
    split at h
    · rename_i pre post hpre hpost
      split at h
      · rename_i heq
        exact .inr ⟨m, post, hm, heq ▸ hpre, hpost⟩
      · cases h
    · cases h

/-- A row that closes no block is read in its state. -/
theorem ParsingState.row_of_admissible {ps : ParsingState} {row : Row}
    (hrow : Admissible ps.wpaState row) (hopen : enters .disconn row = false) :
    ∃ ps', ps.row row = .ok ps' ∧ ps'.wpaState = stateAfter ps.wpaState row := by
  rcases hrow with hnone | ⟨m, post, hm, hpre, hpost⟩
  · exact ⟨{ ps with infoBlk := ps.infoBlk ++ [row] }, by simp [ParsingState.row, hnone],
      by simp [stateAfter, hnone]⟩
  · have hafter : stateAfter ps.wpaState row = post := by simp [stateAfter, hm, hpost]
    have heq : ps.row row =
        ({ ps with infoBlk := ps.infoBlk ++ [row], wpaState := post }).enter post := by
      simp [ParsingState.row, hm, hpre, hpost]
    rw [hafter, heq]
    cases post with
    | disconn => simp [enters, hm, hpost] at hopen
    | completed =>
      simp only [ParsingState.enter]
      refine ⟨_, rfl, ?_⟩
      split <;> rfl
    | _ => exact ⟨_, rfl, rfl⟩

theorem ParsingState.row_total {ps : ParsingState} {row : Row} (ht : ps.Tracks)
    (hread : Readable (ps.infoBlk ++ [row])) (hrow : Admissible ps.wpaState row) :
    ∃ ps', ps.row row = .ok ps' ∧ ps'.wpaState = stateAfter ps.wpaState row := by
  cases hclose : enters .disconn row with
  | false => exact ParsingState.row_of_admissible hrow hclose
  | true =>
    obtain hnone | ⟨m, post, hm, hpre, hpost⟩ := hrow
    · simp [enters, hnone] at hclose
    obtain rfl : post = .disconn := by simpa [enters, hm, hpost] using hclose
    have henters : ∀ st, enters st row = decide (.disconn = st) := by simp [enters, hm, hpost]
    have heq : ps.row row =
        ({ ps with infoBlk := ps.infoBlk ++ [row], wpaState := .disconn }).close := by
      simp [ParsingState.row, hm, hpre, hpost, ParsingState.enter]
    obtain ⟨record, hrecord⟩ := blockRecord_total hread hclose
    rw [heq, ParsingState.close_eq ht henters, hrecord]
    exact ⟨_, rfl, by simp [stateAfter, hm, hpost]⟩

/-- One row of a listed interface, with what the pass knows after it. -/
theorem ParsingState.row_step {ps : ParsingState} {row : Row} (ht : ps.Tracks)
    (hread : Readable (ps.infoBlk ++ [row])) (hrow : Admissible ps.wpaState row) :
    ∃ ps', ps.row row = .ok ps' ∧ ps'.Tracks ∧ ps'.wpaState = stateAfter ps.wpaState row ∧
      Readable ps'.infoBlk ∧
      (exec stateRe row = none → ps'.infoBlk = ps.infoBlk ++ [row]) := by
  obtain ⟨ps', hps', hstate⟩ := ParsingState.row_total ht hread hrow
  cases hclose : enters .disconn row with
  | true =>
    obtain ⟨ht', hbuf, -⟩ := ParsingState.row_close ht hps' hclose
    refine ⟨ps', hps', ht', hstate, hbuf ▸ readable_nil, fun hnone => ?_⟩
    simp [enters, hnone] at hclose
  | false =>
    obtain ⟨ht', hbuf, -⟩ := ParsingState.row_open ht hps' hclose
    exact ⟨ps', hps', ht', hstate, hbuf ▸ hread, fun _ => hbuf⟩

/-- Rows without a change of state are all read. -/
theorem ParsingState.rows_total_of_no_state {rows : List Row} (ps : ParsingState)
    (h : ∀ row ∈ rows, exec stateRe row = none) :
    ∃ ps', rows.foldlM ParsingState.row ps = .ok ps' := by
  induction rows generalizing ps with
  | nil => exact ⟨ps, rfl⟩
  | cons row rows ih =>
    have hrow : ps.row row = .ok { ps with infoBlk := ps.infoBlk ++ [row] } := by
      simp [ParsingState.row, h row (by simp)]
    obtain ⟨ps', hps'⟩ := ih { ps with infoBlk := ps.infoBlk ++ [row] }
      fun r hr => h r (by simp [hr])
    exact ⟨ps', foldlM_cons_eq_ok.mpr ⟨_, hrow, hps'⟩⟩

/-! ## The whole log -/

/-- The parser accepts a log exactly when the pass over the rows of each listed interface
does not fail. -/
theorem parse_total_iff {intfList : List Intf} {rows : List Row} :
    (∃ out, WPAParser.parse intfList rows = .ok out) ↔
      ∀ intf ∈ intfList, ∃ ps,
        (rows.filter fun row => nicOf row = some intf).foldlM ParsingState.row {} = .ok ps := by
  have hstates : (∃ out, WPAParser.parse intfList rows = .ok out) ↔
      ∃ states, WPAParser.states intfList rows = .ok states := by
    unfold WPAParser.parse
    cases WPAParser.states intfList rows <;> simp [Except.map]
  rw [hstates]
  constructor
  · rintro ⟨states, hstates⟩ intf hintf
    have hfold := keyed_fold.mp hstates intf
    simp only [listedNic_eq_some hintf] at hfold
    exact ⟨_, hfold⟩
  · intro h
    have hall : ∀ intf, ∃ ps, (rows.filter fun row => listedNic intfList row = some intf).foldlM
        ParsingState.row {} = .ok ps := by
      intro intf
      by_cases hintf : intf ∈ intfList
      · simpa only [listedNic_eq_some hintf] using h intf hintf
      · refine ⟨{}, ?_⟩
        have hnone : (rows.filter fun row => listedNic intfList row = some intf) = [] := by
          rw [List.filter_eq_nil_iff]
          intro row _ hrow
          obtain ⟨-, hmem⟩ : _ ∧ intf ∈ intfList := by
            simpa [listedNic, Option.filter_eq_some_iff] using hrow
          exact hintf hmem
        rw [hnone]
        rfl
    choose states hstates using hall
    exact ⟨states, keyed_fold.mpr hstates⟩

theorem row_ok_of_mem {rows : List Row} {ps ps' : ParsingState}
    (h : rows.foldlM ParsingState.row ps = .ok ps') {row : Row} (hrow : row ∈ rows) :
    ∃ before after, ParsingState.row before row = .ok after := by
  induction rows generalizing ps with
  | nil => simp at hrow
  | cons r rows ih =>
    obtain ⟨mid, hr, hrows⟩ := foldlM_cons_eq_ok.mp h
    rcases List.mem_cons.mp hrow with rfl | hrow
    · exact ⟨ps, mid, hr⟩
    · exact ih hrows hrow

end CarFi.Analyzer

import CarFi.Analyzer.Isolation
import CarFi.Analyzer.WpaLevels
import CarFi.Analyzer.WpaTotal

/-!
# Rekeying within a connection

While a client is connected, its keys are renewed: the state goes from `COMPLETED` through the
handshakes back to `COMPLETED`. Such rows stand in the buffer of the connection and move every
later index. This file compares a log with the log in which rekeying rows were inserted right
after a completion: `parse_rekeyed` gives the same records for both, provided that the row after
the completion reads no row across it. A selection reads the level two rows above it, and an
authentication reads the request in the row above it.
-/
namespace CarFi.Analyzer

open Library Library.Regex Library.PyText

/-! ## Rows that report a state -/

theorem stateRe_head : stateRe = headRe (some 1) (some 2) ++
    (⟨none, .many space⟩ :: (lit "State:" ++
      (Regex.star space ++ grp 3 (plus nicClass) ++ Regex.star space ++ lit "->" ++
        Regex.star space ++ grp 4 (plus nicClass) ++ Regex.star space ++ eol))) := rfl

theorem bssRe_head : bssRe = headRe (some 1) (some 2) ++
    (⟨none, .many space⟩ :: (lit "selected" ++
      (Regex.star space ++ lit "BSS" ++ Regex.star space ++ grp 3 (plus macClass) ++
        Regex.star space ++ lit "ssid=" ++ grp 4 (lit "'" ++ Regex.star dot ++ lit "'") ++
        Regex.star space ++ eol))) := rfl

/-- The message of a row that a pattern with the head and a literal matches. -/
theorem message_of_exec {w : String} {r : Pattern} {row : Row} {m : Capture}
    (hw : (w.toList.head?.any fun c => !space c) = true)
    (h : exec (headRe (some 1) (some 2) ++ (⟨none, .many space⟩ :: (lit w ++ r)))
      row = some m) :
    ∃ cut, headCut row = some cut ∧ w.toList <+: cut.rest.dropWhile space := by
  rw [exec_headRe_eq] at h
  obtain ⟨cut, hcut, h⟩ := Option.bind_eq_some_iff.mp h
  obtain ⟨m', hm', -⟩ := Option.map_eq_some_iff.mp h
  rw [exec_many_eq (rejects_lit w r hw)] at hm'
  obtain ⟨m'', hm'', -⟩ := Option.map_eq_some_iff.mp hm'
  refine ⟨cut, hcut, ?_⟩
  by_contra hnot
  rw [exec_lit_eq_none w r hnot] at hm''
  cases hm''

/-- A row reports a state or a selection, not both. -/
theorem bssRe_eq_none_of_stateRe {row : Row} {m : Capture} (h : exec stateRe row = some m) :
    exec bssRe row = none := by
  by_contra hbss
  obtain ⟨m', hm'⟩ := Option.ne_none_iff_exists'.mp hbss
  rw [stateRe_head] at h
  rw [bssRe_head] at hm'
  obtain ⟨cut, hcut, hstate⟩ := message_of_exec (by decide) h
  obtain ⟨cut', hcut', hselected⟩ := message_of_exec (by decide) hm'
  obtain rfl : cut = cut' := Option.some.inj (hcut.symm.trans hcut')
  have hor := List.prefix_or_prefix_of_prefix hstate hselected
  exact absurd hor (by decide)

/-- A row that reports a state has no level. -/
theorem ssRe_eq_none_of_stateRe {row : Row} {m : Capture} (h : exec stateRe row = some m) :
    exec ssRe row = none := by
  by_contra hss
  obtain ⟨m', hm'⟩ := Option.ne_none_iff_exists'.mp hss
  have hlevel : "level=".toList <:+: row := isInfix_of_exec_star (p := dot) (w := "level=")
    (r := grp 1 (plus levelClass) ++ Regex.star dot ++ eol) hm'
  have hmem : '=' ∈ row := hlevel.subset (by decide)
  have hchars := accepts_of_exec (r := stateRe.dropLast) h '=' hmem
  revert hchars
  decide

/-! ## Insertion into a block -/

/-- The states between which keys are renewed. -/
def WPAState.keyed : WPAState → Bool
  | .fwHs | .grpHs | .completed => true
  | _ => false

/-- A row that can stand within a renewal of the keys. -/
structure RekeyRow (row : Row) : Prop where
  selection : exec bssRe row = none
  state : ∀ st, enters st row = true → st.keyed = true

/-- A block cut after a row that reports the completion; the row after the cut reads no row
before it. -/
structure BlockCut (before after : List Row) : Prop where
  completed : ∃ body row, before = body ++ [row] ∧ enters .completed row = true
  nonempty : after ≠ []
  selection : ∀ row ∈ after.head?, exec bssRe row = none
  authing : ∀ row ∈ after.head?, enters .authing row = false

theorem exists_stateRe_of_enters {st : WPAState} {row : Row} (h : enters st row = true) :
    ∃ m, exec stateRe row = some m ∧ WPAState.ofName (m.group 4) = some st := by
  simpa [enters, Option.bind_eq_some_iff] using h

section Block

variable {before xs after : List Row}

theorem timeAt_insert (before xs after : List Row) (i : Nat) :
    timeAt (before ++ (xs ++ after)) (shift before.length xs.length i) =
      timeAt (before ++ after) i := by
  rw [timeAt, timeAt, getElem?_insert]

theorem BlockCut.length_pos (h : BlockCut before after) : 0 < before.length := by
  obtain ⟨body, row, rfl, -⟩ := h.completed
  simp

theorem optTimeAt_insert (h : BlockCut before after) (id : Option Nat) :
    optTimeAt (before ++ (xs ++ after)) (id.map (shift before.length xs.length)) =
      optTimeAt (before ++ after) id := by
  have hpos := h.length_pos
  rcases id with - | - | i
  · rfl
  · simp [shift_of_lt hpos, optTimeAt]
  · obtain ⟨j, hj⟩ := exists_shift_succ before.length xs.length i
    have htime := timeAt_insert before xs after (i + 1)
    rw [hj] at htime
    simp only [Option.map_some, hj, optTimeAt, htime]

theorem freqMatchAt_insert (h : BlockCut before after) {i : Nat}
    (hauth : lastIdx? (enters .authing) (before ++ after) = some (i + 1)) :
    freqMatchAt (before ++ (xs ++ after)) (shift before.length xs.length (i + 1)) =
      freqMatchAt (before ++ after) (i + 1) := by
  -- the row at the cut is no authentication, so the row above stands on the same side
  have hne : i + 1 ≠ before.length := by
    intro heq
    obtain ⟨row, hrow, henters, -⟩ := lastIdx?_eq_some hauth
    rw [heq, List.getElem?_append_right le_rfl, Nat.sub_self, ← List.head?_eq_getElem?] at hrow
    simp [h.authing row hrow] at henters
  have hshift : shift before.length xs.length (i + 1) = shift before.length xs.length i + 1 := by
    unfold shift
    split_ifs <;> omega
  rw [hshift, freqMatchAt_succ, freqMatchAt_succ, getElem?_insert]

/-- The row from which the level of the row `i` is read; above the first rows it is one of the
last. -/
theorem item?_level_iff {blk : List Row} {i : Nat} {row : Row} :
    item? blk (i - levelOffset) = some row ↔
      ∃ j, blk[j]? = some row ∧ (j + 2 = i ∨ i < 2 ∧ j + 2 = blk.length + i) := by
  unfold item? levelOffset
  split
  · rename_i hle
    have hj : ((i : Int) - 2).toNat = i - 2 := by omega
    rw [hj]
    constructor
    · exact fun h => ⟨i - 2, h, .inl (by omega)⟩
    · rintro ⟨j, hrow, hj | ⟨hlt, -⟩⟩
      · rwa [← hj, Nat.add_sub_cancel]
      · omega
  · rename_i hneg
    split
    · rename_i hlen
      have hj : blk.length - (-((i : Int) - 2)).toNat = blk.length + i - 2 := by omega
      rw [hj]
      constructor
      · exact fun h => ⟨blk.length + i - 2, h, .inr (by omega)⟩
      · rintro ⟨j, hrow, hj | ⟨-, hj⟩⟩
        · omega
        · rwa [← hj, Nat.add_sub_cancel]
    · rename_i hlen
      simp only [reduceCtorEq, false_iff, not_exists, not_and]
      intro j hrow hj
      have := (List.getElem?_eq_some_iff.mp hrow).1
      omega

theorem levelAt_eq_ok {blk : List Row} {i : Nat} {l : Int} :
    levelAt blk i = .ok l ↔ ∃ row m, item? blk (i - levelOffset) = some row ∧
      exec ssRe row = some m ∧ int (m.group 1) = some l := by
  unfold levelAt
  cases item? blk (i - levelOffset) with
  | none => simp
  | some row =>
    cases hm : exec ssRe row with
    | none => simp [hm]
    | some m =>
      cases hl : int (m.group 1) <;> simp [hm, hl]

/-- The row of the completion, the last one before the cut, has no level. -/
theorem BlockCut.ssRe_eq_none (h : BlockCut before after) {row : Row}
    (hrow : (before ++ after)[before.length - 1]? = some row) : exec ssRe row = none := by
  obtain ⟨body, last, rfl, hlast⟩ := h.completed
  obtain rfl : last = row := by simpa using hrow
  obtain ⟨m, hm, -⟩ := exists_stateRe_of_enters hlast
  exact ssRe_eq_none_of_stateRe hm

theorem levelAt_insert (h : BlockCut before after) {i : Nat} (hi : i ≠ before.length) {l : Int}
    (hl : levelAt (before ++ after) i = .ok l) :
    levelAt (before ++ (xs ++ after)) (shift before.length xs.length i) = .ok l := by
  obtain ⟨row, m, hitem, hm, hint⟩ := levelAt_eq_ok.mp hl
  refine levelAt_eq_ok.mpr ⟨row, m, ?_, hm, hint⟩
  obtain ⟨j, hrow, hj⟩ := item?_level_iff.mp hitem
  have hpos := h.length_pos
  have hafter : 0 < after.length := List.length_pos_iff.mpr h.nonempty
  -- the level is not read from the row of the completion
  have hlast : j + 1 ≠ before.length := by
    intro heq
    have hj : before.length - 1 = j := by omega
    have hnone := h.ssRe_eq_none (hj ▸ hrow)
    simp [hm] at hnone
  refine item?_level_iff.mpr
    ⟨shift before.length xs.length j, by rw [getElem?_insert, hrow], ?_⟩
  simp only [List.length_append] at hj ⊢
  unfold shift
  split_ifs <;> omega

/-- The loop passes rows that are no selections. -/
theorem levelLoop_skip {blk : List Row} {n k : Nat} (level : Option Int)
    (h : ∀ i, n < i → i ≤ n + k → ∃ row, blk[i]? = some row ∧ exec bssRe row = none) :
    levelLoop blk (n + k) level = levelLoop blk n level := by
  induction k with
  | zero => rfl
  | succ k ih =>
    obtain ⟨row, hrow, hbss⟩ := h (n + k + 1) (by omega) (by omega)
    have hstep : levelStep blk (n + k + 1) level = .ok level := by simp [levelStep, hrow, hbss]
    rw [← Nat.add_assoc, levelLoop, hstep]
    exact ih fun i hlo hhi => h i hlo (by omega)

theorem levelStep_insert (xs : List Row) (h : BlockCut before after) {i : Nat}
    (hi : i ≠ before.length) {level level' : Option Int}
    (hl : levelStep (before ++ after) i level = .ok level') :
    levelStep (before ++ (xs ++ after)) (shift before.length xs.length i) level = .ok level' := by
  unfold levelStep at hl ⊢
  rw [getElem?_insert]
  split at hl
  · cases hl
  · split at hl
    · rename_i hbss
      rw [if_pos hbss]
      cases hlevel : levelAt (before ++ after) i with
      | error e => simp [hlevel, Except.map] at hl
      | ok l =>
        rw [levelAt_insert h hi hlevel]
        rwa [hlevel] at hl
    · rename_i hbss
      rwa [if_neg hbss]

/-- The inserted rows and the row after them are no selections. -/
theorem BlockCut.skipped (h : BlockCut before after) (hxs : ∀ x ∈ xs, exec bssRe x = none)
    {i : Nat} (hlo : before.length ≤ i) (hhi : i ≤ before.length + xs.length) :
    ∃ row, (before ++ (xs ++ after))[i]? = some row ∧ exec bssRe row = none := by
  rw [List.getElem?_append_right hlo]
  by_cases hlt : i - before.length < xs.length
  · refine ⟨xs[i - before.length], ?_, hxs _ (List.getElem_mem hlt)⟩
    rw [List.getElem?_append_left hlt, List.getElem?_eq_getElem hlt]
  · obtain ⟨row, rest, rfl⟩ := List.exists_cons_of_ne_nil h.nonempty
    have hzero : i - before.length - xs.length = 0 := by omega
    refine ⟨row, ?_, h.selection row (by simp)⟩
    rw [List.getElem?_append_right (by omega), hzero, List.getElem?_cons_zero]

theorem levelLoop_insert (h : BlockCut before after) (hxs : ∀ x ∈ xs, exec bssRe x = none)
    {n : Nat} {level res : Option Int}
    (hl : levelLoop (before ++ after) n level = .ok res) :
    levelLoop (before ++ (xs ++ after)) (shift before.length xs.length n) level = .ok res := by
  have hpos := h.length_pos
  induction n generalizing level with
  | zero =>
    rw [shift_of_lt hpos]
    have hstep := levelStep_insert xs h hpos.ne hl
    rwa [shift_of_lt hpos] at hstep
  | succ n ih =>
    simp only [levelLoop] at hl
    split at hl
    · cases hl
    rename_i mid hstep
    by_cases hcut : n + 1 = before.length
    · obtain ⟨row, hrow, hcase⟩ := levelStep_eq_ok hstep
      rw [hcut, List.getElem?_append_right le_rfl, Nat.sub_self, ← List.head?_eq_getElem?] at hrow
      have hbss : isSelection row = false := by simp [isSelection, h.selection row hrow]
      obtain rfl : mid = level := by simpa [hbss] using hcase
      have hskip := @levelLoop_skip (before ++ (xs ++ after)) n (xs.length + 1) mid
        fun i hlo hhi => h.skipped hxs (by omega) (by omega)
      have hn : shift before.length xs.length (n + 1) = n + (xs.length + 1) := by
        rw [shift_of_le (by omega)]
        omega
      rw [hn, hskip, ← ih hl, shift_of_lt (by omega)]
    · have hshift : shift before.length xs.length (n + 1) =
          shift before.length xs.length n + 1 := by
        unfold shift
        split_ifs <;> omega
      have hstep' := levelStep_insert xs h hcut hstep
      rw [hshift] at hstep' ⊢
      rw [levelLoop, hstep']
      exact ih hl

/-- The indices after an insertion. -/
def Indices.shifted (ids : Indices) (n k : Nat) : Indices where
  authS := ids.authS.map (shift n k)
  authE := ids.authE.map (shift n k)
  assocS := ids.assocS.map (shift n k)
  assocE := ids.assocE.map (shift n k)
  hsS := ids.hsS.map (shift n k)
  hsE := ids.hsE.map (shift n k)
  connS := ids.connS.map (shift n k)
  connE := ids.connE.map (shift n k)

theorem RekeyRow.enters_eq_false {row : Row} (h : RekeyRow row) {st : WPAState}
    (hst : st.keyed = false) : enters st row = false := by
  rw [Bool.eq_false_iff]
  intro hrow
  simp [h.state st hrow] at hst

theorem any_insert (hxs : ∀ x ∈ xs, RekeyRow x) {st : WPAState} (hst : st.keyed = false) :
    (before ++ (xs ++ after)).any (enters st) = (before ++ after).any (enters st) := by
  have hnone : xs.any (enters st) = false := by
    simpa [List.any_eq_false] using fun x hx => (hxs x hx).enters_eq_false hst
  simp [List.any_append, hnone]

/-- The first completion comes before the cut. -/
theorem BlockCut.findIdx?_completed (h : BlockCut before after) :
    ∃ i < before.length, ∀ rest,
      (before ++ rest).findIdx? (enters .completed) = some i := by
  have hany : (before.findIdx? (enters .completed)).isSome := by
    obtain ⟨body, row, rfl, hrow⟩ := h.completed
    simp [hrow]
  obtain ⟨i, hi⟩ := Option.isSome_iff_exists.mp hany
  obtain ⟨hlt, -⟩ := List.findIdx?_eq_some_iff_getElem.mp hi
  exact ⟨i, hlt, fun rest => by simp [List.findIdx?_append, hi]⟩

theorem blockIndices_insert (h : BlockCut before after) (hxs : ∀ x ∈ xs, RekeyRow x) :
    blockIndices (before ++ (xs ++ after)) =
      (blockIndices (before ++ after)).shifted before.length xs.length := by
  obtain ⟨first, hlt, hfirst⟩ := h.findIdx?_completed
  have hlast (st : WPAState) (hst : st.keyed = false) :=
    lastIdx?_insert (p := enters st) before after fun x hx => (hxs x hx).enters_eq_false hst
  have hany : ∀ rest, (before ++ rest).any (enters .completed) = true := by
    intro rest
    rw [← List.findIdx?_isSome, hfirst rest]
    rfl
  have hafter : 0 < after.length := List.length_pos_iff.mpr h.nonempty
  have hend : (before ++ (xs ++ after)).length - 1 =
      shift before.length xs.length ((before ++ after).length - 1) := by
    rw [shift_of_le (by simp; omega)]
    simp
    omega
  simp only [blockIndices, notedIndices, Indices.shifted, hlast .authing rfl,
    hlast .associng rfl, hlast .assoced rfl, hfirst, hany, hend, if_true,
    Option.map_some, shift_of_lt hlt]

theorem selectionLevel_insert (h : BlockCut before after) (hxs : ∀ x ∈ xs, RekeyRow x) {i : Nat}
    {isReassoc : Bool} {level : Option Int}
    (hl : selectionLevel (before ++ after) i isReassoc = .ok level) :
    selectionLevel (before ++ (xs ++ after)) (shift before.length xs.length i) isReassoc =
      .ok level := by
  unfold selectionLevel at hl ⊢
  split at hl
  · rename_i hre
    rwa [if_pos hre]
  · rename_i hre
    rw [if_neg hre]
    exact levelLoop_insert h (fun x hx => (hxs x hx).selection) hl

theorem InfoBlk.parse_insert (h : BlockCut before after) (hxs : ∀ x ∈ xs, RekeyRow x) {i : Nat}
    (hauth : lastIdx? (enters .authing) (before ++ after) = some (i + 1)) {ids : Indices}
    {isReassoc : Bool} {record : InfoBlk}
    (hr : InfoBlk.parse (before ++ after) (i + 1) ids isReassoc = .ok record) :
    InfoBlk.parse (before ++ (xs ++ after)) (shift before.length xs.length (i + 1))
      (ids.shifted before.length xs.length) isReassoc = .ok record := by
  have hlevel := (InfoBlk.parse_reads hr).level
  rw [← hr]
  unfold InfoBlk.parse
  simp only [selectionLevel_insert h hxs hlevel, hlevel, timeAt_insert, Indices.shifted,
    optTimeAt_insert h, freqMatchAt_insert h hauth]

/-- The record of a block does not change. -/
theorem blockRecord_insert (h : BlockCut before after) (hxs : ∀ x ∈ xs, RekeyRow x)
    {record : Option InfoBlk} (hrecord : blockRecord (before ++ after) = .ok record) :
    blockRecord (before ++ (xs ++ after)) = .ok record := by
  have hpos := h.length_pos
  have hre : isReassocBlock (before ++ (xs ++ after)) = isReassocBlock (before ++ after) := by
    unfold isReassocBlock
    rw [any_insert hxs rfl]
  unfold blockRecord at hrecord ⊢
  rw [blockIndices_insert h hxs, hre]
  rcases hauth : (blockIndices (before ++ after)).authS with - | - | i
  · simpa [hauth, Indices.shifted] using hrecord
  · simpa [hauth, Indices.shifted, shift_of_lt hpos] using hrecord
  · obtain ⟨j, hj⟩ := exists_shift_succ before.length xs.length i
    have hshifted : ((blockIndices (before ++ after)).shifted before.length xs.length).authS =
        some (j + 1) := by
      rw [Indices.shifted, hauth, Option.map_some, hj]
    rw [hauth] at hrecord
    rw [hshifted]
    dsimp only at hrecord ⊢
    cases hp : InfoBlk.parse (before ++ after) (i + 1) (blockIndices (before ++ after))
        (isReassocBlock (before ++ after)) with
    | error e => simp [hp, Except.map] at hrecord
    | ok r =>
      have hp' := InfoBlk.parse_insert h hxs hauth hp
      rw [hj] at hp'
      rwa [hp', ← hp]

end Block

/-! ## Two runs -/

/-- Rows of a renewal of the keys that starts in the state `st` and ends connected: changes
between the states of the handshakes, mixed with rows that report neither a state nor a
selection. -/
inductive Rekeying : WPAState → List Row → Prop
  | nil : Rekeying .completed []
  | other {st : WPAState} {row : Row} {rows : List Row} (hstate : exec stateRe row = none)
      (hbss : exec bssRe row = none) (hrows : Rekeying st rows) : Rekeying st (row :: rows)
  | change {st post : WPAState} {row : Row} {rows : List Row} {m : Capture}
      (hm : exec stateRe row = some m) (hpre : WPAState.ofName (m.group 3) = some st)
      (hpost : WPAState.ofName (m.group 4) = some post) (hkeyed : post.keyed = true)
      (hrows : Rekeying post rows) : Rekeying st (row :: rows)

/-- The same, as a computation. -/
def isRekeying : WPAState → List Row → Bool
  | st, [] => st = .completed
  | st, row :: rows =>
    match exec stateRe row with
    | none => (exec bssRe row).isNone && isRekeying st rows
    | some m =>
      match WPAState.ofName (m.group 3), WPAState.ofName (m.group 4) with
      | some pre, some post => pre = st && post.keyed && isRekeying post rows
      | _, _ => false

theorem rekeying_of_isRekeying {st : WPAState} {rows : List Row} (h : isRekeying st rows = true) :
    Rekeying st rows := by
  induction rows generalizing st with
  | nil =>
    obtain rfl : st = .completed := by simpa [isRekeying] using h
    exact .nil
  | cons row rows ih =>
    unfold isRekeying at h
    split at h
    · rename_i hm
      simp only [Bool.and_eq_true, Option.isNone_iff_eq_none] at h
      exact .other hm h.1 (ih h.2)
    · rename_i m hm
      split at h
      · rename_i pre post hpre hpost
        simp only [Bool.and_eq_true, decide_eq_true_eq] at h
        obtain ⟨⟨rfl, hkeyed⟩, hrows⟩ := h
        exact .change hm hpre hpost hkeyed (ih hrows)
      · cases h

theorem Rekeying.rekeyRow {st : WPAState} {rows : List Row} (h : Rekeying st rows) :
    ∀ row ∈ rows, RekeyRow row := by
  induction h with
  | nil => simp
  | other hstate hbss _ ih =>
    exact List.forall_mem_cons.mpr
      ⟨⟨hbss, fun st hst => by simp [enters, hstate] at hst⟩, ih⟩
  | change hm _ hpost hkeyed _ ih =>
    refine List.forall_mem_cons.mpr ⟨⟨bssRe_eq_none_of_stateRe hm, fun st hst => ?_⟩, ih⟩
    simp only [enters, hm, Option.bind_some, hpost, Option.some.injEq, decide_eq_true_eq] at hst
    rwa [← hst]

/-- The pass buffers the rows of a renewal and is connected again. -/
theorem Rekeying.run {st : WPAState} {rows : List Row} (h : Rekeying st rows) {ps : ParsingState}
    (ht : ps.Tracks) (hst : ps.wpaState = st) :
    ∃ ps', rows.foldlM ParsingState.row ps = .ok ps' ∧ ps'.Tracks ∧
      ps'.wpaState = .completed ∧ ps'.infoBlk = ps.infoBlk ++ rows ∧
      ps'.infoBlkList = ps.infoBlkList := by
  have hrekey := h.rekeyRow
  induction h generalizing ps with
  | nil => exact ⟨ps, rfl, ht, hst, by simp, rfl⟩
  | @other st row rows hstate hbss _ ih =>
    obtain ⟨hrow, hrows⟩ := List.forall_mem_cons.mp hrekey
    have hopen : enters .disconn row = false := hrow.enters_eq_false rfl
    have hadm : Admissible ps.wpaState row := .inl hstate
    obtain ⟨mid, hmid, hmst⟩ := ParsingState.row_of_admissible hadm hopen
    obtain ⟨htm, hbuf, hlist⟩ := ParsingState.row_open ht hmid hopen
    have hmst : mid.wpaState = st := by simpa [stateAfter, hstate, hst] using hmst
    obtain ⟨ps', hps', ht', hst', hbuf', hlist'⟩ := ih htm hmst hrows
    exact ⟨ps', foldlM_cons_eq_ok.mpr ⟨mid, hmid, hps'⟩, ht', hst', by simp [hbuf', hbuf],
      hlist'.trans hlist⟩
  | @change st post row rows m hm hpre hpost _ _ ih =>
    obtain ⟨hrow, hrows⟩ := List.forall_mem_cons.mp hrekey
    have hopen : enters .disconn row = false := hrow.enters_eq_false rfl
    have hadm : Admissible ps.wpaState row := .inr ⟨m, post, hm, hst ▸ hpre, hpost⟩
    obtain ⟨mid, hmid, hmst⟩ := ParsingState.row_of_admissible hadm hopen
    obtain ⟨htm, hbuf, hlist⟩ := ParsingState.row_open ht hmid hopen
    have hmst : mid.wpaState = post := by simpa [stateAfter, hm, hpost] using hmst
    obtain ⟨ps', hps', ht', hst', hbuf', hlist'⟩ := ih htm hmst hrows
    exact ⟨ps', foldlM_cons_eq_ok.mpr ⟨mid, hmid, hps'⟩, ht', hst', by simp [hbuf', hbuf],
      hlist'.trans hlist⟩

/-- Two states of the pass, the second with the rows `xs` inserted into its buffer. -/
structure ParsingState.Rekeyed (before xs after : List Row) (ps ps' : ParsingState) : Prop where
  tracks : ps.Tracks
  tracks' : ps'.Tracks
  wpaState : ps'.wpaState = ps.wpaState
  infoBlkList : ps'.infoBlkList = ps.infoBlkList
  infoBlk : ps.infoBlk = before ++ after
  infoBlk' : ps'.infoBlk = before ++ (xs ++ after)

theorem ParsingState.wpaState_of_row {ps ps' : ParsingState} {row : Row}
    (h : ps.row row = .ok ps') (hopen : enters .disconn row = false) :
    ps'.wpaState = stateAfter ps.wpaState row := by
  obtain ⟨ps'', hps'', hst⟩ :=
    ParsingState.row_of_admissible (ParsingState.admissible_of_row h) hopen
  obtain rfl : ps'' = ps' := Except.ok.inj (hps''.symm.trans h)
  exact hst

/-- A row that closes no block keeps the two states related. -/
theorem ParsingState.Rekeyed.row_open {before xs after : List Row} {ps ps' mid : ParsingState}
    (h : ps.Rekeyed before xs after ps') {row : Row} (hrow : ps.row row = .ok mid)
    (hopen : enters .disconn row = false) :
    ∃ mid', ps'.row row = .ok mid' ∧ mid.Rekeyed before xs (after ++ [row]) mid' := by
  have hadm : Admissible ps'.wpaState row := by
    rw [h.wpaState]
    exact ParsingState.admissible_of_row hrow
  obtain ⟨mid', hmid', hst'⟩ := ParsingState.row_of_admissible hadm hopen
  obtain ⟨ht, hbuf, hlist⟩ := ParsingState.row_open h.tracks hrow hopen
  obtain ⟨ht', hbuf', hlist'⟩ := ParsingState.row_open h.tracks' hmid' hopen
  refine ⟨mid', hmid', ht, ht', ?_, ?_, ?_, ?_⟩
  · rw [hst', h.wpaState, ParsingState.wpaState_of_row hrow hopen]
  · rw [hlist', hlist, h.infoBlkList]
  · simp [hbuf, h.infoBlk]
  · simp [hbuf', h.infoBlk']

/-- A row that closes the block leaves both passes in the same state. -/
theorem ParsingState.Rekeyed.row_close {before xs after : List Row} {ps ps' mid : ParsingState}
    (h : ps.Rekeyed before xs after ps') (hxs : ∀ x ∈ xs, RekeyRow x) {row : Row}
    (hcut : BlockCut before (after ++ [row])) (hrow : ps.row row = .ok mid)
    (hclose : enters .disconn row = true) : ps'.row row = .ok mid := by
  obtain hnone | ⟨m, post, hm, hpre, hpost⟩ := ParsingState.admissible_of_row hrow
  · simp [enters, hnone] at hclose
  obtain rfl : post = .disconn := by simpa [enters, hm, hpost] using hclose
  have henters : ∀ st, enters st row = decide (.disconn = st) := by simp [enters, hm, hpost]
  have heq : ps.row row = (blockRecord (ps.infoBlk ++ [row])).map fun record =>
      { wpaState := .disconn, infoBlkList := ps.infoBlkList ++ record.toList } := by
    rw [← ParsingState.close_eq h.tracks henters]
    simp [ParsingState.row, hm, hpre, hpost, ParsingState.enter]
  have heq' : ps'.row row = (blockRecord (ps'.infoBlk ++ [row])).map fun record =>
      { wpaState := .disconn, infoBlkList := ps.infoBlkList ++ record.toList } := by
    rw [← h.infoBlkList, ← ParsingState.close_eq h.tracks' henters]
    simp [ParsingState.row, hm, h.wpaState, hpre, hpost, ParsingState.enter]
  rw [heq] at hrow
  cases hrecord : blockRecord (ps.infoBlk ++ [row]) with
  | error e => simp [hrecord, Except.map] at hrow
  | ok record =>
    have hsame : blockRecord (ps'.infoBlk ++ [row]) = .ok record := by
      rw [h.infoBlk, List.append_assoc] at hrecord
      have hins := blockRecord_insert hcut hxs hrecord
      simpa [h.infoBlk'] using hins
    rw [heq', hsame, ← hrecord, hrow]

/-- From related states, the two passes emit the same records. -/
theorem ParsingState.Rekeyed.run {before xs after : List Row} {ps ps' final : ParsingState}
    (h : ps.Rekeyed before xs after ps') (hxs : ∀ x ∈ xs, RekeyRow x)
    (hcompleted : ∃ body row, before = body ++ [row] ∧ enters .completed row = true)
    {rows : List Row}
    (hnext : ∀ row ∈ (after ++ rows).head?, exec bssRe row = none ∧
      enters .authing row = false)
    (hrows : rows.foldlM ParsingState.row ps = .ok final) :
    ∃ final', rows.foldlM ParsingState.row ps' = .ok final' ∧
      final'.infoBlkList = final.infoBlkList := by
  induction rows generalizing ps ps' after with
  | nil =>
    obtain rfl : ps = final := by simpa [pure, Except.pure] using hrows
    exact ⟨ps', rfl, h.infoBlkList⟩
  | cons row rows ih =>
    obtain ⟨mid, hrow, hrest⟩ := foldlM_cons_eq_ok.mp hrows
    have hhead : (after ++ row :: rows).head? = (after ++ [row]).head? := by
      cases after <;> rfl
    cases hclose : enters .disconn row with
    | true =>
      rw [hhead] at hnext
      have hcut : BlockCut before (after ++ [row]) :=
        ⟨hcompleted, by simp, fun r hr => (hnext r hr).1, fun r hr => (hnext r hr).2⟩
      exact ⟨final, foldlM_cons_eq_ok.mpr
        ⟨mid, h.row_close hxs hcut hrow hclose, hrest⟩, rfl⟩
    | false =>
      obtain ⟨mid', hmid', hrel⟩ := h.row_open hrow hclose
      have hnext' : ∀ r ∈ (after ++ [row] ++ rows).head?,
          exec bssRe r = none ∧ enters .authing r = false := by simpa using hnext
      obtain ⟨final', hfinal', hlist⟩ := ih hrel hnext' hrest
      exact ⟨final', foldlM_cons_eq_ok.mpr ⟨mid', hmid', hfinal'⟩, hlist⟩

/-- The rows of one interface, cut at a completion. -/
theorem ParsingState.rows_rekeyed {before after xs : List Row} {row : Row}
    (hrow : enters .completed row = true) (hxs : Rekeying .completed xs)
    (hnext : ∀ r ∈ after.head?, exec bssRe r = none ∧ enters .authing r = false)
    {final : ParsingState}
    (h : (before ++ row :: after).foldlM ParsingState.row {} = .ok final) :
    ∃ final', (before ++ row :: (xs ++ after)).foldlM ParsingState.row {} = .ok final' ∧
      final'.infoBlkList = final.infoBlkList := by
  rw [List.foldlM_append] at h
  obtain ⟨start, hstart, h⟩ := bind_eq_ok.mp h
  obtain ⟨ps, hps, h⟩ := foldlM_cons_eq_ok.mp h
  have hopen : enters .disconn row = false := by
    obtain ⟨m, hm, hname⟩ := exists_stateRe_of_enters hrow
    simp [enters, hm, hname]
  have htracks : start.Tracks := ParsingState.rows_tracks (ParsingState.tracks_init _ _) hstart
  obtain ⟨ht, hbuf, hlist⟩ := ParsingState.row_open htracks hps hopen
  have hst : ps.wpaState = .completed := by
    rw [ParsingState.wpaState_of_row hps hopen]
    obtain ⟨m, hm, hname⟩ := exists_stateRe_of_enters hrow
    simp [stateAfter, hm, hname]
  obtain ⟨ps', hps', ht', hst', hbuf', hlist'⟩ := hxs.run ht hst
  have hrel : ps.Rekeyed (start.infoBlk ++ [row]) xs [] ps' :=
    ⟨ht, ht', hst'.trans hst.symm, hlist', by simpa using hbuf, by simp [hbuf', hbuf]⟩
  obtain ⟨final', hfinal', hsame⟩ := hrel.run hxs.rekeyRow ⟨_, row, rfl, hrow⟩ hnext h
  refine ⟨final', ?_, hsame⟩
  rw [List.foldlM_append]
  refine bind_eq_ok.mpr ⟨start, hstart, foldlM_cons_eq_ok.mpr ⟨ps, hps, ?_⟩⟩
  rw [List.foldlM_append]
  exact bind_eq_ok.mpr ⟨ps', hps', hfinal'⟩

/-! ## The whole log -/

/-- Inserting the rows of a renewal of the keys after a completion changes no record, provided
that the next row of the interface is neither a selection nor an authentication. -/
theorem parse_rekeyed {intfList : List Intf} {intf : Intf} {before after xs : List Row} {row : Row}
    (hnic : nicOf row = some intf) (hrow : enters .completed row = true)
    (hxnic : ∀ x ∈ xs, nicOf x = some intf) (hxs : Rekeying .completed xs)
    (hnext : ∀ r ∈ (after.filter fun r => nicOf r = some intf).head?,
      exec bssRe r = none ∧ enters .authing r = false)
    {out : Intf → List InfoBlk}
    (h : WPAParser.parse intfList (before ++ row :: after) = .ok out) :
    WPAParser.parse intfList (before ++ row :: (xs ++ after)) = .ok out := by
  cases hstates : WPAParser.states intfList (before ++ row :: after) with
  | error e => simp [WPAParser.parse, hstates, Except.map] at h
  | ok states =>
    obtain rfl : (fun intf => (states intf).infoBlkList) = out := by
      simpa [WPAParser.parse, hstates, Except.map] using h
    have hfold := keyed_fold.mp hstates
    have hfold' : ∀ k, ∃ ps, ((before ++ row :: (xs ++ after)).filter fun r =>
        listedNic intfList r = some k).foldlM ParsingState.row {} = .ok ps ∧
          ps.infoBlkList = (states k).infoBlkList := by
      intro k
      have hk := hfold k
      simp only [List.filter_append, List.filter_cons] at hk ⊢
      by_cases hown : k = intf ∧ intf ∈ intfList
      · obtain ⟨rfl, hmem⟩ := hown
        have hx : (xs.filter fun r => listedNic intfList r = some k) = xs :=
          List.filter_eq_self.mpr fun x hx => by
            simp [listedNic_eq_some hmem, hxnic x hx]
        have hr : listedNic intfList row = some k := (listedNic_eq_some hmem row).mpr hnic
        simp only [hr, decide_true, if_true] at hk ⊢
        rw [hx]
        refine ParsingState.rows_rekeyed hrow hxs ?_ hk
        simpa only [listedNic_eq_some hmem] using hnext
      · have hnone : ∀ r, nicOf r = some intf → listedNic intfList r ≠ some k := by
          intro r hr hlisted
          obtain ⟨hnic', hmem⟩ := Option.filter_eq_some_iff.mp hlisted
          obtain rfl : intf = k := Option.some.inj (hr.symm.trans hnic')
          exact hown ⟨rfl, by simpa using hmem⟩
        have hx : (xs.filter fun r => listedNic intfList r = some k) = [] :=
          List.filter_eq_nil_iff.mpr fun x hx => by simpa using hnone x (hxnic x hx)
        exact ⟨states k, by simpa [hx] using hk, rfl⟩
    choose states' hstates' hsame using hfold'
    have hall : WPAParser.states intfList (before ++ row :: (xs ++ after)) = .ok states' :=
      keyed_fold.mpr hstates'
    simp only [WPAParser.parse, hall, Except.map, hsame]

/-- A renewal of the group key. -/
def groupRekey : List Row :=
  ["5.0: wlan0: State: COMPLETED -> GROUP_HANDSHAKE\n".toList,
   "5.0: wlan0: WPA: Group rekeying completed\n".toList,
   "5.0: wlan0: State: GROUP_HANDSHAKE -> COMPLETED\n".toList]

theorem groupRekey_rekeying : Rekeying .completed groupRekey ∧
    ∀ x ∈ groupRekey, nicOf x = some "wlan0".toList := by
  have hcheck : isRekeying .completed groupRekey = true ∧
      ∀ x ∈ groupRekey, nicOf x = some "wlan0".toList := by
    simp only [groupRekey, String.reduceToList]
    decide +kernel
  exact ⟨rekeying_of_isRekeying hcheck.1, hcheck.2⟩

/-- A connection up to its completion. -/
def joinLog : List Row :=
  ["1.0: wlan0: State: DISCONNECTED -> SCANNING\n".toList,
   "2.0: wlan0: SME: Trying to authenticate with 02:00:00:00:00:0a (SSID='x' freq=2412 MHz)\n"
     |>.toList,
   "2.0: wlan0: State: SCANNING -> AUTHENTICATING\n".toList]

def joined : Row := "4.0: wlan0: State: AUTHENTICATING -> COMPLETED\n".toList
def left : List Row := ["9.0: wlan0: State: COMPLETED -> DISCONNECTED\n".toList]

theorem joinLog_run :
    nicOf joined = some "wlan0".toList ∧ enters .completed joined = true ∧
      (∀ r ∈ (left.filter fun r => nicOf r = some "wlan0".toList).head?,
        exec bssRe r = none ∧ enters .authing r = false) ∧
      emits (fun record => record.tConnE = some 9) ["wlan0".toList] (joinLog ++ joined :: left)
        "wlan0".toList = true := by
  unfold joinLog joined left
  simp only [String.reduceToList]
  decide +kernel

theorem parse_rekeyed_joinLog :
    ∃ out, WPAParser.parse ["wlan0".toList] (joinLog ++ joined :: left) = .ok out ∧
      (∃ record ∈ out "wlan0".toList, record.tConnE = some 9) ∧
      WPAParser.parse ["wlan0".toList] (joinLog ++ joined :: (groupRekey ++ left)) = .ok out := by
  obtain ⟨hnic, hrow, hnext, hrun⟩ := joinLog_run
  obtain ⟨hrekey, hxnic⟩ := groupRekey_rekeying
  obtain ⟨out, hout, record, hrecord, htime⟩ := exists_record_of_emits hrun
  exact ⟨out, hout, ⟨record, hrecord, of_decide_eq_true htime⟩,
    parse_rekeyed hnic hrow hxnic hrekey hnext hout⟩

/-! ## A selection right after the completion -/

/-- The level of the selection stands before the completion. -/
def levelLog : List Row :=
  ["1.0: wlan0: State: DISCONNECTED -> SCANNING\n".toList,
   "1.5: wlan0: 0: 02:00:00:00:00:0a ssid='x' level=-50\n".toList]

def scanned : Row := "2.0: wlan0: State: SCANNING -> COMPLETED\n".toList

def roamed : List Row :=
  ["6.0: wlan0: selected BSS 02:00:00:00:00:0a ssid='x'\n".toList,
   "6.0: wlan0: SME: Trying to authenticate with 02:00:00:00:00:0a (SSID='x' freq=2412 MHz)\n"
     |>.toList,
   "6.0: wlan0: State: COMPLETED -> AUTHENTICATING\n".toList,
   "7.0: wlan0: State: AUTHENTICATING -> DISCONNECTED\n".toList]

theorem levelLog_run :
    nicOf scanned = some "wlan0".toList ∧ enters .completed scanned = true ∧
      emits (fun record => record.level = some (-50)) ["wlan0".toList]
        (levelLog ++ scanned :: roamed) "wlan0".toList = true ∧
      (WPAParser.parse ["wlan0".toList]
        (levelLog ++ scanned :: (groupRekey ++ roamed))).toOption.isNone =
        true := by
  unfold levelLog scanned roamed groupRekey
  simp only [String.reduceToList]
  decide +kernel

/-- The selection then reads its level in a row of the renewal: the log is rejected. -/
theorem rekeyed_level_rejected :
    nicOf scanned = some "wlan0".toList ∧ enters .completed scanned = true ∧
      Rekeying .completed groupRekey ∧ (∀ x ∈ groupRekey, nicOf x = some "wlan0".toList) ∧
      (∃ out, WPAParser.parse ["wlan0".toList] (levelLog ++ scanned :: roamed) = .ok out ∧
        ∃ record ∈ out "wlan0".toList, record.level = some (-50)) ∧
      ∀ out, WPAParser.parse ["wlan0".toList] (levelLog ++ scanned :: (groupRekey ++ roamed)) ≠
        .ok out := by
  obtain ⟨hnic, hrow, hrun, herror⟩ := levelLog_run
  obtain ⟨hrekey, hxnic⟩ := groupRekey_rekeying
  obtain ⟨out, hout, record, hrecord, hlevel⟩ := exists_record_of_emits hrun
  refine ⟨hnic, hrow, hrekey, hxnic,
    ⟨out, hout, record, hrecord, of_decide_eq_true hlevel⟩, ?_⟩
  intro out' hout'
  rw [hout'] at herror
  cases herror

end CarFi.Analyzer

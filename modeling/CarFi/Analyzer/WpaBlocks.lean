import CarFi.Analyzer.WpaParser
import Mathlib.Data.List.ReduceOption

/-!
# What the WPA parser computes

The parser is one pass with a buffer and eight indices that are overwritten as states repeat.
Here its result is stated without the pass: the rows of an interface are cut after every
change to `DISCONNECTED`, and each block gives at most one record, whose indices are the last
(for the end of the handshake: the first) positions in the block at which a state is entered.
`parse_records` says that the pass computes exactly that.
-/
namespace CarFi.Analyzer

open Library Library.Regex Library.PyText

/-- The row reports a change to the state `st`. -/
def enters (st : WPAState) (row : Row) : Bool :=
  ((exec stateRe row).bind fun m => WPAState.ofName (m.group 4)) = some st

/-- The indices noted while the rows of `blk` are read. -/
def notedIndices (blk : List Row) : Indices where
  authS := lastIdx? (enters .authing) blk
  authE := lastIdx? (enters .associng) blk
  assocS := lastIdx? (enters .associng) blk
  assocE := lastIdx? (enters .assoced) blk
  hsS := lastIdx? (enters .assoced) blk
  hsE := blk.findIdx? (enters .completed)
  connS := blk.findIdx? (enters .completed)

/-- The indices of a closed block: a connection ends where the block does. -/
def blockIndices (blk : List Row) : Indices :=
  { notedIndices blk with
    connE := if blk.any (enters .completed) then some (blk.length - 1) else none }

/-- No scan was started in the block. -/
def isReassocBlock (blk : List Row) : Bool := !blk.any (enters .scanning)

/-- The record of a closed block, if the block gives one. -/
def blockRecord (blk : List Row) : Except PyError (Option InfoBlk) :=
  match (blockIndices blk).authS with
  | some (i + 1) =>
    (InfoBlk.parse blk (i + 1) (blockIndices blk) (isReassocBlock blk)).map fun record =>
      if record.success then some record else none
  | _ => .ok none

/-- The closed blocks of one interface. -/
def blocksOf (intf : Intf) (rows : List Row) : List (List Row) :=
  closedBlocks (enters .disconn) (rows.filter fun row => nicOf row = some intf)

/-! ## What a record reads -/

/-- Each part of a record is read from the block on its own. -/
structure InfoBlk.ReadFrom (record : InfoBlk) (blk : List Row) (idAuthS : Nat) (ids : Indices)
    (isReassoc : Bool) : Prop where
  level : selectionLevel blk idAuthS isReassoc = .ok record.level
  type : record.type = if isReassoc then some .reassoc else record.level.map fun _ => .new
  tAuthS : (timeAt blk idAuthS).map some = .ok record.tAuthS
  tAuthE : optTimeAt blk ids.authE = .ok record.tAuthE
  tAssocS : optTimeAt blk ids.assocS = .ok record.tAssocS
  tAssocE : optTimeAt blk ids.assocE = .ok record.tAssocE
  tHsS : optTimeAt blk ids.hsS = .ok record.tHsS
  tHsE : optTimeAt blk ids.hsE = .ok record.tHsE
  tConnS : optTimeAt blk ids.connS = .ok record.tConnS
  tConnE : optTimeAt blk ids.connE = .ok record.tConnE
  freq : ∃ freqMatch, freqMatchAt blk idAuthS = .ok freqMatch ∧
    record.bssid = freqMatch.map (·.group 1) ∧ record.success = freqMatch.isSome

theorem InfoBlk.parse_reads {blk : List Row} {idAuthS : Nat} {ids : Indices} {isReassoc : Bool}
    {record : InfoBlk} (h : InfoBlk.parse blk idAuthS ids isReassoc = .ok record) :
    record.ReadFrom blk idAuthS ids isReassoc := by
  unfold InfoBlk.parse at h
  obtain ⟨level, hlevel, h⟩ := bind_eq_ok.mp h
  obtain ⟨tAuthS, hAuthS, h⟩ := bind_eq_ok.mp h
  obtain ⟨tAuthE, hAuthE, h⟩ := bind_eq_ok.mp h
  obtain ⟨tAssocS, hAssocS, h⟩ := bind_eq_ok.mp h
  obtain ⟨tAssocE, hAssocE, h⟩ := bind_eq_ok.mp h
  obtain ⟨tHsS, hHsS, h⟩ := bind_eq_ok.mp h
  obtain ⟨tHsE, hHsE, h⟩ := bind_eq_ok.mp h
  obtain ⟨tConnS, hConnS, h⟩ := bind_eq_ok.mp h
  obtain ⟨tConnE, hConnE, h⟩ := bind_eq_ok.mp h
  obtain ⟨freqMatch, hfreq, h⟩ := bind_eq_ok.mp h
  cases h
  exact ⟨hlevel, rfl, by simp [hAuthS, Except.map], hAuthE, hAssocS, hAssocE, hHsS, hHsE, hConnS,
    hConnE, freqMatch, hfreq, rfl, rfl⟩

/-- A block gives a record when it holds an authentication after its first row and the row
before the last one is an authentication request. -/
theorem blockRecord_eq_some {blk : List Row} {record : InfoBlk}
    (h : blockRecord blk = .ok (some record)) :
    ∃ i, lastIdx? (enters .authing) blk = some (i + 1) ∧ record.success = true ∧
      record.ReadFrom blk (i + 1) (blockIndices blk) (isReassocBlock blk) := by
  unfold blockRecord at h
  split at h
  · rename_i i hi
    cases hp : InfoBlk.parse blk (i + 1) (blockIndices blk) (isReassocBlock blk) with
    | error e => simp [hp, Except.map] at h
    | ok r =>
      simp only [hp, Except.map, Except.ok.injEq] at h
      split at h
      · rename_i hsuccess
        obtain rfl : r = record := by simpa using h
        exact ⟨i, hi, hsuccess, InfoBlk.parse_reads hp⟩
      · cases h
  · cases h

/-- The last authentication of the block is entered right after an authentication request. -/
def RequestsAuth (blk : List Row) : Prop :=
  ∃ i row, lastIdx? (enters .authing) blk = some (i + 1) ∧ blk[i]? = some row ∧
    (exec freqRe row).isSome

theorem freqMatchAt_succ (blk : List Row) (i : Nat) :
    freqMatchAt blk (i + 1) =
      blk[i]?.elim (.error .indexError) fun row => .ok (exec freqRe row) := by
  have hitem : item? blk (((i + 1 : Nat) : Int) - 1) = blk[i]? := by simp [item?]
  simp only [freqMatchAt, hitem]
  cases blk[i]? <;> rfl

/-- A block that is read without an error gives a record exactly when it requests an
authentication. -/
theorem isSome_blockRecord_iff {blk : List Row} {record : Option InfoBlk}
    (h : blockRecord blk = .ok record) : record.isSome ↔ RequestsAuth blk := by
  unfold blockRecord at h
  split at h
  · rename_i i hi
    cases hp : InfoBlk.parse blk (i + 1) (blockIndices blk) (isReassocBlock blk) with
    | error e => simp [hp, Except.map] at h
    | ok r =>
      obtain rfl : (if r.success then some r else none) = record := by
        simpa [hp, Except.map] using h
      obtain ⟨freqMatch, hfreq, -, hsuccess⟩ := (InfoBlk.parse_reads hp).freq
      rw [freqMatchAt_succ] at hfreq
      cases hrow : blk[i]? with
      | none => simp [hrow] at hfreq
      | some row =>
        obtain rfl : exec freqRe row = freqMatch := by simpa [hrow] using hfreq
        have hi : lastIdx? (enters .authing) blk = some (i + 1) := hi
        simp [RequestsAuth, hi, hrow, hsuccess]
  · rename_i hnot
    cases h
    simp only [Option.isSome_none, Bool.false_eq_true, RequestsAuth, false_iff]
    rintro ⟨i, _, hi, _⟩
    exact hnot i hi

/-! ## The pass keeps the indices of its buffer -/

/-- The state of the pass says of its buffer what the specification says. -/
structure ParsingState.Tracks (ps : ParsingState) : Prop where
  idx : ps.idx = notedIndices ps.infoBlk
  completed : ps.completedBlk = ps.infoBlk.any (enters .completed)
  reassoc : ps.isReassoc = isReassocBlock ps.infoBlk

theorem ParsingState.tracks_init (wpaState : WPAState) (records : List InfoBlk) :
    ParsingState.Tracks { wpaState := wpaState, infoBlkList := records } := by
  constructor <;> simp [notedIndices, lastIdx?, isReassocBlock]

/-- What a row can do: nothing but be buffered, or also report a change that starts in the
current state. -/
theorem ParsingState.row_cases {ps ps' : ParsingState} {row : Row} (h : ps.row row = .ok ps') :
    ((∀ st, enters st row = false) ∧ ps' = { ps with infoBlk := ps.infoBlk ++ [row] }) ∨
    ∃ post, (∀ st, enters st row = decide (post = st)) ∧
      ({ ps with infoBlk := ps.infoBlk ++ [row], wpaState := post }).enter post = .ok ps' := by
  unfold ParsingState.row at h
  cases hm : exec stateRe row with
  | none =>
    rw [hm] at h
    exact .inl ⟨fun st => by simp [enters, hm], by simpa using h.symm⟩
  | some m =>
    simp only [hm] at h
    split at h
    · rename_i pre post _ hpost
      split at h
      · refine .inr ⟨post, fun st => ?_, h⟩
        simp [enters, hm, hpost]
      · cases h
    · cases h

/-- The first completion is noted once. -/
theorem findIdx?_completed_concat (blk : List Row) (row : Row) :
    (blk ++ [row]).findIdx? (enters .completed) =
      if blk.any (enters .completed) = false ∧ enters .completed row then some blk.length
      else blk.findIdx? (enters .completed) := by
  rw [List.findIdx?_append, ← List.findIdx?_isSome]
  cases blk.findIdx? (enters .completed) with
  | some i => simp
  | none => by_cases hrow : enters .completed row = true <;> simp [List.findIdx?_cons, hrow]

theorem notedIndices_concat (blk : List Row) (row : Row) :
    notedIndices (blk ++ [row]) =
      { authS := if enters .authing row then some blk.length else (notedIndices blk).authS
        authE := if enters .associng row then some blk.length else (notedIndices blk).authE
        assocS := if enters .associng row then some blk.length else (notedIndices blk).assocS
        assocE := if enters .assoced row then some blk.length else (notedIndices blk).assocE
        hsS := if enters .assoced row then some blk.length else (notedIndices blk).hsS
        hsE := if blk.any (enters .completed) = false ∧ enters .completed row then some blk.length
          else (notedIndices blk).hsE
        connS := if blk.any (enters .completed) = false ∧ enters .completed row then
          some blk.length else (notedIndices blk).connS } := by
  simp only [notedIndices, lastIdx?_concat, findIdx?_completed_concat]

/-- The row closes no block: it is buffered and its index noted. -/
theorem ParsingState.row_open {ps ps' : ParsingState} {row : Row} (ht : ps.Tracks)
    (h : ps.row row = .ok ps') (hrow : enters .disconn row = false) :
    ps'.Tracks ∧ ps'.infoBlk = ps.infoBlk ++ [row] ∧ ps'.infoBlkList = ps.infoBlkList := by
  obtain ⟨hidx, hcompleted, hreassoc⟩ := ht
  have hconnE : ps.idx.connE = none := by simp [hidx, notedIndices]
  rcases ParsingState.row_cases h with ⟨hnone, rfl⟩ | ⟨post, henters, h⟩
  · refine ⟨⟨?_, ?_, ?_⟩, rfl, rfl⟩
    · simp only [notedIndices_concat, ← hidx, hnone]
      simp [← hconnE]
    · simp [hcompleted, hnone]
    · simp [hreassoc, isReassocBlock, hnone]
  · cases post with
    | disconn => simp [henters] at hrow
    | completed =>
      simp only [ParsingState.enter, hcompleted] at h
      split at h <;> cases h <;> rename_i hany
      · refine ⟨⟨?_, by simp [hany], ?_⟩, rfl, rfl⟩
        · simp only [notedIndices_concat, ← hidx, henters, hany]
          simp [← hconnE]
        · simp [hreassoc, isReassocBlock, henters]
      · refine ⟨⟨?_, by simp [henters], ?_⟩, rfl, rfl⟩
        · simp only [notedIndices_concat, ← hidx, henters, hany]
          simp [hconnE]
        · simp [hreassoc, isReassocBlock, henters]
    | _ =>
      cases h
      refine ⟨⟨?_, ?_, ?_⟩, rfl, rfl⟩
      · simp only [notedIndices_concat, ← hidx, henters]
        simp [← hconnE]
      · simp [hcompleted, henters]
      · simp [hreassoc, isReassocBlock, henters]

/-- Closing a block reads its record and starts over. -/
theorem ParsingState.close_eq {ps : ParsingState} {row : Row} (ht : ps.Tracks)
    (hrow : ∀ st, enters st row = decide (.disconn = st)) (wpaState : WPAState) :
    ({ ps with infoBlk := ps.infoBlk ++ [row], wpaState := wpaState }).close =
      (blockRecord (ps.infoBlk ++ [row])).map fun record =>
        { wpaState := wpaState, infoBlkList := ps.infoBlkList ++ record.toList } := by
  obtain ⟨hidx, hcompleted, hreassoc⟩ := ht
  have hconnE : ps.idx.connE = none := by simp [hidx, notedIndices]
  have hids : blockIndices (ps.infoBlk ++ [row]) =
      if ps.completedBlk then
        { ps.idx with connE := some ((ps.infoBlk ++ [row]).length - 1) } else ps.idx := by
    simp only [blockIndices, notedIndices_concat, ← hidx, hrow, hcompleted, List.any_append]
    cases hany : ps.infoBlk.any (enters .completed) with
    | true => simp [hrow]
    | false => simp [hrow, ← hconnE]
  have hauthS : (blockIndices (ps.infoBlk ++ [row])).authS = ps.idx.authS := by
    rw [hids]
    split <;> rfl
  have hre : isReassocBlock (ps.infoBlk ++ [row]) = ps.isReassoc := by
    simp [hreassoc, isReassocBlock, hrow]
  unfold ParsingState.close blockRecord
  rw [hauthS, hre, hids]
  dsimp only
  rcases hi : ps.idx.authS with - | - | i
  · simp [Except.map]
  · simp [Except.map]
  · dsimp only
    generalize InfoBlk.parse _ _ _ _ = result
    cases result with
    | error e => rfl
    | ok record => cases hs : record.success <;> simp [Except.map, hs]

/-- The row closes a block: the block gives its record and the pass starts over. -/
theorem ParsingState.row_close {ps ps' : ParsingState} {row : Row} (ht : ps.Tracks)
    (h : ps.row row = .ok ps') (hrow : enters .disconn row = true) :
    ps'.Tracks ∧ ps'.infoBlk = [] ∧
      ∃ record, blockRecord (ps.infoBlk ++ [row]) = .ok record ∧
        ps'.infoBlkList = ps.infoBlkList ++ record.toList := by
  rcases ParsingState.row_cases h with ⟨hnone, rfl⟩ | ⟨post, henters, h⟩
  · simp [hnone] at hrow
  · obtain rfl : post = .disconn := by simpa [henters] using hrow
    rw [ParsingState.enter, ParsingState.close_eq ht henters] at h
    cases hrecord : blockRecord (ps.infoBlk ++ [row]) with
    | error e => simp [hrecord, Except.map] at h
    | ok record =>
      obtain rfl := Except.ok.inj (hrecord ▸ h)
      exact ⟨ParsingState.tracks_init _ _, rfl, record, rfl, rfl⟩

/-! ## The whole pass -/

/-- Over any rows, the pass appends the records of the blocks that the rows close. -/
theorem ParsingState.rows_records {ps ps' : ParsingState} {rows : List Row} (ht : ps.Tracks)
    (h : rows.foldlM ParsingState.row ps = .ok ps') :
    ∃ records, List.Forall₂ (fun blk record => blockRecord blk = .ok record)
        (closedBlocksFrom (enters .disconn) ps.infoBlk rows) records ∧
      ps'.infoBlkList = ps.infoBlkList ++ records.reduceOption := by
  induction rows generalizing ps with
  | nil =>
    obtain rfl : ps = ps' := by simpa [pure, Except.pure] using h
    exact ⟨[], by simp [closedBlocksFrom], by simp [List.reduceOption_nil]⟩
  | cons row rows ih =>
    obtain ⟨mid, hrow, hrows⟩ := foldlM_cons_eq_ok.mp h
    cases hclose : enters .disconn row with
    | true =>
      obtain ⟨hmid, hbuf, record, hrecord, hlist⟩ := ps.row_close ht hrow hclose
      obtain ⟨records, hblocks, hfinal⟩ := ih hmid hrows
      refine ⟨record :: records, ?_, ?_⟩
      · simpa [closedBlocksFrom, hclose, hrecord, hbuf] using hblocks
      · cases record <;> simp [hfinal, hlist]
    | false =>
      obtain ⟨hmid, hbuf, hlist⟩ := ps.row_open ht hrow hclose
      obtain ⟨records, hblocks, hfinal⟩ := ih hmid hrows
      refine ⟨records, ?_, by rw [hfinal, hlist]⟩
      simpa [closedBlocksFrom, hclose, hbuf] using hblocks

theorem ParsingState.rows_tracks {ps ps' : ParsingState} {rows : List Row} (ht : ps.Tracks)
    (h : rows.foldlM ParsingState.row ps = .ok ps') : ps'.Tracks := by
  induction rows generalizing ps with
  | nil =>
    obtain rfl : ps = ps' := by simpa [pure, Except.pure] using h
    exact ht
  | cons row rows ih =>
    obtain ⟨mid, hrow, hrows⟩ := foldlM_cons_eq_ok.mp h
    cases hclose : enters .disconn row with
    | true => exact ih (ps.row_close ht hrow hclose).1 hrows
    | false => exact ih (ps.row_open ht hrow hclose).1 hrows

theorem listedNic_eq_some {intfList : List Intf} {intf : Intf} (hintf : intf ∈ intfList)
    (row : Row) : listedNic intfList row = some intf ↔ nicOf row = some intf := by
  simp only [listedNic, Option.filter_eq_some_iff, List.contains_iff_mem]
  exact ⟨fun h => h.1, fun h => ⟨h, hintf⟩⟩

/-- The parser computes the records of the blocks, for every interface it lists. -/
theorem parse_records {intfList : List Intf} {rows : List Row} {out : Intf → List InfoBlk}
    (h : WPAParser.parse intfList rows = .ok out) {intf : Intf} (hintf : intf ∈ intfList) :
    ∃ records, List.Forall₂ (fun blk record => blockRecord blk = .ok record)
      (blocksOf intf rows) records ∧ out intf = records.reduceOption := by
  unfold WPAParser.parse at h
  cases hs : WPAParser.states intfList rows with
  | error e => simp [hs, Except.map] at h
  | ok states =>
    obtain rfl : (fun intf => (states intf).infoBlkList) = out := by
      simpa [hs, Except.map] using h
    have hfold := keyed_fold.mp hs intf
    simp only [listedNic_eq_some hintf] at hfold
    exact ParsingState.rows_records (ParsingState.tracks_init _ _) hfold

theorem mem_parse {intfList : List Intf} {rows : List Row} {out : Intf → List InfoBlk}
    (h : WPAParser.parse intfList rows = .ok out) {intf : Intf} (hintf : intf ∈ intfList)
    {record : InfoBlk} :
    record ∈ out intf ↔ ∃ blk ∈ blocksOf intf rows,
      blockRecord blk = .ok (some record) := by
  obtain ⟨records, hblocks, hout⟩ := parse_records h hintf
  rw [hout, List.reduceOption_mem_iff, mem_right_iff_of_forall₂ ?_ hblocks]
  intro blk r r' hr hr'
  exact Except.ok.inj (hr.symm.trans hr')

/-- On an accepted log, the blocks with a record are those that request an authentication. -/
theorem exists_record_iff_requestsAuth {intfList : List Intf} {rows : List Row}
    {out : Intf → List InfoBlk} (h : WPAParser.parse intfList rows = .ok out) {intf : Intf}
    (hintf : intf ∈ intfList) {blk : List Row} (hblk : blk ∈ blocksOf intf rows) :
    (∃ record, blockRecord blk = .ok (some record)) ↔ RequestsAuth blk := by
  obtain ⟨records, hblocks, -⟩ := parse_records h hintf
  obtain ⟨record, -, hrecord⟩ := exists_right_of_forall₂ hblocks hblk
  rw [← isSome_blockRecord_iff hrecord, Option.isSome_iff_exists]
  simp [hrecord]

/-- Acceptance, with a record of a given kind, as a computation. -/
def emits (p : InfoBlk → Bool) (intfList : List Intf) (rows : List Row) (intf : Intf) : Bool :=
  match WPAParser.parse intfList rows with
  | .ok out => (out intf).any p
  | .error _ => false

theorem exists_record_of_emits {p : InfoBlk → Bool} {intfList : List Intf} {rows : List Row}
    {intf : Intf} (h : emits p intfList rows intf = true) :
    ∃ out, WPAParser.parse intfList rows = .ok out ∧
      ∃ record ∈ out intf, p record = true := by
  unfold emits at h
  split at h
  · rename_i out hout
    exact ⟨out, hout, by simpa using h⟩
  · cases h

end CarFi.Analyzer

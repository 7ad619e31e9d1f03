import CarFi.Analyzer.LogLine
import CarFi.Library.Stream

/-!
# The parser of wpa_supplicant logs

`WPAParser` of `analyzer/lib/wpa_supplicant.py`. Every row of a listed interface is buffered;
a row that reports a state change moves the state of its interface and notes the index of
the row in the buffer. The change to `DISCONNECTED` turns the buffer and the noted indices
into a record and clears both.
-/
namespace CarFi.Analyzer

open Library Library.Regex Library.PyText

inductive AssocType where
  | new | reassoc
  deriving DecidableEq, Repr

inductive WPAState where
  | disconn | scanning | authing | associng | assoced | fwHs | grpHs | completed
  deriving DecidableEq, Repr

/-- The call `_WPAState(name)`; an unknown name raises. -/
def WPAState.ofName (name : List Char) : Option WPAState :=
  if name = "DISCONNECTED".toList then some .disconn
  else if name = "SCANNING".toList then some .scanning
  else if name = "AUTHENTICATING".toList then some .authing
  else if name = "ASSOCIATING".toList then some .associng
  else if name = "ASSOCIATED".toList then some .assoced
  else if name = "4WAY_HANDSHAKE".toList then some .fwHs
  else if name = "GROUP_HANDSHAKE".toList then some .grpHs
  else if name = "COMPLETED".toList then some .completed
  else none

/-! ## Patterns -/

def macClass : CharClass := fun c => asciiLetter c || ascii09 c || c == ':'
def levelClass : CharClass := fun c => c == '-' || ascii09 c

def nicRe : Pattern :=
  plus stampClass ++ lit ":" ++ star space ++ grp 1 (plus nicClass) ++ lit ":" ++ star dot ++ eol

def stateRe : Pattern :=
  grp 1 (plus stampClass) ++ lit ":" ++ star space ++ grp 2 (plus nicClass) ++ lit ":" ++
  star space ++ lit "State:" ++ star space ++ grp 3 (plus nicClass) ++ star space ++ lit "->" ++
  star space ++ grp 4 (plus nicClass) ++ star space ++ eol

def bssRe : Pattern :=
  grp 1 (plus stampClass) ++ lit ":" ++ star space ++ grp 2 (plus nicClass) ++ lit ":" ++
  star space ++ lit "selected" ++ star space ++ lit "BSS" ++ star space ++
  grp 3 (plus macClass) ++ star space ++ lit "ssid=" ++ grp 4 (lit "'" ++ star dot ++ lit "'") ++
  star space ++ eol

def levelOffset : Int := 2

def ssRe : Pattern :=
  star dot ++ lit "level=" ++ grp 1 (plus levelClass) ++ star dot ++ eol

def freqRe : Pattern :=
  plus stampClass ++ lit ":" ++ star space ++ plus nicClass ++ lit ":" ++ star space ++
  lit "SME:" ++ star dot ++ lit "with" ++ star space ++ grp 1 (plus macClass) ++ star space ++
  star dot ++ lit "SSID=" ++ grp 2 (lit "'" ++ star dot ++ lit "'") ++ star space ++
  lit "freq=" ++ grp 3 (plus decimal) ++ star dot ++ eol

/-! ## Records -/

/-- `_InfoBlk`. The attributes `type` and `level` are assigned inside a loop, so they can be
missing; `bssid`, `essid` and `freq` are missing exactly when `success` is false. -/
structure InfoBlk where
  type : Option AssocType
  level : Option Int
  tAuthS : Option ℚ
  tAuthE : Option ℚ
  tAssocS : Option ℚ
  tAssocE : Option ℚ
  tHsS : Option ℚ
  tHsE : Option ℚ
  tConnS : Option ℚ
  tConnE : Option ℚ
  bssid : Option (List Char)
  essid : Option (List Char)
  freq : Option Nat
  success : Bool
  deriving DecidableEq, Repr

/-- The level read `levelOffset` rows above the row `index`. -/
def levelAt (blk : List Row) (index : Nat) : Except PyError Int :=
  match item? blk (index - levelOffset) with
  | none => .error .indexError
  | some row =>
    match exec ssRe row with
    | none => .error .attributeError
    | some m =>
      match int (m.group 1) with
      | none => .error .valueError
      | some level => .ok level

/-- One turn of the loop: a selection row replaces the level. -/
def levelStep (blk : List Row) (index : Nat) (level : Option Int) :
    Except PyError (Option Int) :=
  match blk[index]? with
  | none => .error .indexError
  | some row => if (exec bssRe row).isSome then (levelAt blk index).map some else .ok level

/-- The loop over `range(id_auth_s, -1, -1)`: it does not stop at a match. -/
def levelLoop (blk : List Row) : Nat → Option Int → Except PyError (Option Int)
  | 0, level => levelStep blk 0 level
  | index + 1, level =>
    match levelStep blk (index + 1) level with
    | .error e => .error e
    | .ok level => levelLoop blk index level

/-- The AP selection result. -/
def selectionLevel (blk : List Row) (idAuthS : Nat) (isReassoc : Bool) :
    Except PyError (Option Int) :=
  if isReassoc then .ok (some 0) else levelLoop blk idAuthS none

/-- `float(blk[id].split(":")[0])` -/
def stamp (row : Row) : Except PyError ℚ :=
  match float (splitHead ':' row) with
  | none => .error .valueError
  | some t => .ok t

def timeAt (blk : List Row) (id : Nat) : Except PyError ℚ :=
  match blk[id]? with
  | none => .error .indexError
  | some row => stamp row

/-- A time of the record: `None` unless its index is true. -/
def optTimeAt (blk : List Row) (id : Option Nat) : Except PyError (Option ℚ) :=
  match id with
  | some (i + 1) => (timeAt blk (i + 1)).map some
  | _ => .ok none

/-- The indices of the rows at which the phases of an association start and end. -/
structure Indices where
  authS : Option Nat := none
  authE : Option Nat := none
  assocS : Option Nat := none
  assocE : Option Nat := none
  hsS : Option Nat := none
  hsE : Option Nat := none
  connS : Option Nat := none
  connE : Option Nat := none
  deriving DecidableEq, Repr

/-- The match of the row before the row `idAuthS`. -/
def freqMatchAt (blk : List Row) (idAuthS : Nat) : Except PyError (Option Capture) :=
  match item? blk (idAuthS - 1) with
  | none => .error .indexError
  | some row => .ok (exec freqRe row)

/-- `_InfoBlk._parse`, called with a start index `idAuthS` that is true. -/
def InfoBlk.parse (blk : List Row) (idAuthS : Nat) (ids : Indices) (isReassoc : Bool) :
    Except PyError InfoBlk := do
  let level ← selectionLevel blk idAuthS isReassoc
  let type := if isReassoc then some .reassoc else level.map fun _ => .new
  let tAuthS ← timeAt blk idAuthS
  let tAuthE ← optTimeAt blk ids.authE
  let tAssocS ← optTimeAt blk ids.assocS
  let tAssocE ← optTimeAt blk ids.assocE
  let tHsS ← optTimeAt blk ids.hsS
  let tHsE ← optTimeAt blk ids.hsE
  let tConnS ← optTimeAt blk ids.connS
  let tConnE ← optTimeAt blk ids.connE
  let freqMatch ← freqMatchAt blk idAuthS
  return {
    type, level, tAuthS := some tAuthS, tAuthE, tAssocS, tAssocE, tHsS, tHsE, tConnS, tConnE
    bssid := freqMatch.map (·.group 1)
    essid := freqMatch.map (·.group 2)
    freq := freqMatch.map fun m => natOfDecimals (m.group 3)
    success := freqMatch.isSome }

/-! ## The parser -/

/-- `_ParsingState` -/
structure ParsingState where
  wpaState : WPAState := .disconn
  infoBlk : List Row := []
  infoBlkList : List InfoBlk := []
  completedBlk : Bool := false
  isReassoc : Bool := true
  idx : Indices := {}

/-- The branch of the change to `DISCONNECTED`: emit a record and clear the buffer. -/
def ParsingState.close (ps : ParsingState) : Except PyError ParsingState :=
  let cleared : ParsingState := { wpaState := ps.wpaState, infoBlkList := ps.infoBlkList }
  match ps.idx.authS with
  | some (i + 1) =>
    let ids :=
      if ps.completedBlk then { ps.idx with connE := some (ps.infoBlk.length - 1) } else ps.idx
    match InfoBlk.parse ps.infoBlk (i + 1) ids ps.isReassoc with
    | .error e => .error e
    | .ok blk =>
      .ok (if blk.success then { cleared with infoBlkList := ps.infoBlkList ++ [blk] }
        else cleared)
  | _ => .ok cleared

/-- What a change to `post` does, once the row is buffered and the state is set. -/
def ParsingState.enter (ps : ParsingState) : WPAState → Except PyError ParsingState
  | .scanning => .ok { ps with isReassoc := false }
  | .disconn => ps.close
  | .completed =>
    .ok (if ps.completedBlk then ps else
      { ps with
        completedBlk := true
        idx := { ps.idx with
          hsE := some (ps.infoBlk.length - 1), connS := some (ps.infoBlk.length - 1) } })
  | .authing => .ok { ps with idx := { ps.idx with authS := some (ps.infoBlk.length - 1) } }
  | .associng =>
    .ok { ps with idx := { ps.idx with
      authE := some (ps.infoBlk.length - 1), assocS := some (ps.infoBlk.length - 1) } }
  | .assoced =>
    .ok { ps with idx := { ps.idx with
      assocE := some (ps.infoBlk.length - 1), hsS := some (ps.infoBlk.length - 1) } }
  | .fwHs | .grpHs => .ok ps

/-- One row of a listed interface. An unknown state name ends the run with an error; which
error it is depends on what the handler can still print. -/
def ParsingState.row (ps : ParsingState) (row : Row) : Except PyError ParsingState :=
  let ps := { ps with infoBlk := ps.infoBlk ++ [row] }
  match exec stateRe row with
  | none => .ok ps
  | some m =>
    match WPAState.ofName (m.group 3), WPAState.ofName (m.group 4) with
    | some pre, some post =>
      if pre = ps.wpaState then ({ ps with wpaState := post }).enter post
      else .error .assertionError
    | _, _ => .error .valueError

/-- The interface of a row, when the row has the common head of all log rows. -/
def nicOf (row : Row) : Option Intf := (exec nicRe row).map (·.group 1)

/-- Rows of other interfaces, and rows without the common head, are skipped. -/
def listedNic (intfList : List Intf) (row : Row) : Option Intf :=
  (nicOf row).filter intfList.contains

/-- The loop of `WPAParser.parse`, with the dictionary of the parsing states as a function. -/
def WPAParser.states (intfList : List Intf) (rows : List Row) :
    Except PyError (Intf → ParsingState) :=
  rows.foldlM (keyed (listedNic intfList) ParsingState.row) fun _ => {}

/-- `WPAParser.parse`: the records of each interface. -/
def WPAParser.parse (intfList : List Intf) (rows : List Row) :
    Except PyError (Intf → List InfoBlk) :=
  (WPAParser.states intfList rows).map fun states intf => (states intf).infoBlkList

end CarFi.Analyzer

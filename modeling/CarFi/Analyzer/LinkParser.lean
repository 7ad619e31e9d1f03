import CarFi.Analyzer.LogLine

/-!
# The parser of link-monitor logs

`LinkParser` of `analyzer/lib/link_parser.py`. The monitor prints the header of an interface and
then the line with its signal. The parser keeps a half-filled `Link` between the two.
-/
namespace CarFi.Analyzer

open Library Library.Regex Library.PyText

/-! ## Patterns -/

section Patterns

-- the class `\w`
variable (word : CharClass)

def versionClass : CharClass := fun c => ascii09 c || asciiLetter c || c == '.'
def signalClass : CharClass := fun c => c == '-' || ascii09 c || c == '.'

def ifRe : Pattern :=
  grp 1 (plus stampClass) ++ plus space ++ grp 2 (plus word) ++ plus space ++ lit "IEEE" ++
  plus space ++ plus versionClass ++ plus space ++ lit "ESSID:" ++ Regex.star dot ++ eol

def ssLinkRe : Pattern :=
  grp 1 (plus stampClass) ++ plus space ++ lit "Link" ++ plus space ++ lit "Quality=" ++
  plus decimal ++ lit "/" ++ plus decimal ++ plus space ++ lit "Signal" ++ plus space ++
  lit "level=" ++ grp 2 (plus signalClass) ++ plus space ++ lit "dBm" ++ Regex.star dot ++ eol

/-- What a line of the log is to the parser. -/
inductive LinkLine where
  | header (ts : List Char) (intf : Intf)
  | signal (level : List Char)
  | other
  deriving DecidableEq

def LinkLine.ofRow (row : Row) : LinkLine :=
  match exec (ifRe word) row with
  | some m => .header (m.group 1) (m.group 2)
  | none =>
    match exec ssLinkRe row with
    | some m => .signal (m.group 2)
    | none => .other

end Patterns

/-! ## The parser -/

/-- `Link` -/
structure Link where
  time : Option ℚ := none
  intf : Option Intf := none
  signal : Option ℚ := none
  deriving DecidableEq

/-- The variables `link` and `links` of the loop; `links` has the keys `intfs`. -/
structure LinkParser.State where
  link : Link := {}
  links : Intf → List Link := fun _ => []

/-- `links[link.intf].append(link)`, where the interface of the link may be `None`. -/
def LinkParser.State.append (intfs : List Intf) (s : LinkParser.State) (link : Link) :
    Except PyError LinkParser.State :=
  match link.intf with
  | none => .error .keyError
  | some intf =>
    if intfs.contains intf then
      .ok ⟨{}, Function.update s.links intf (s.links intf ++ [link])⟩
    else .error .keyError

/-- One turn of the loop. -/
def LinkParser.line (intfs : List Intf) (s : LinkParser.State) :
    LinkLine → Except PyError LinkParser.State
  | .header ts intf =>
    match float ts with
    | none => .error .valueError
    | some time => .ok { s with link := { s.link with time := some time, intf := some intf } }
  | .signal level =>
    match signedFloat level with
    | none => .error .valueError
    | some signal => s.append intfs { s.link with signal := some signal }
  | .other => .ok s

/-- `LinkParser.parse` -/
def LinkParser.parse (word : CharClass) (intfs : List Intf) (rows : List Row) :
    Except PyError (Intf → List Link) :=
  (·.links) <$> rows.foldlM (fun s row => LinkParser.line intfs s (LinkLine.ofRow word row)) {}

end CarFi.Analyzer

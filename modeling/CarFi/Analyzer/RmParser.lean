import CarFi.Analyzer.LogLine
import CarFi.Library.Stream

/-!
# The parser of roamingd logs

`RMParser` of `analyzer/lib/roamingd.py`. Three kinds of rows move the state of an interface:
the start of DHCP, an address with a gateway, and the loss of the carrier, which emits a
record. Two further kinds only add the servers to the record in the making.
-/
namespace CarFi.Analyzer

open Library Library.Regex Library.PyText

/-! ## Patterns -/

def dhcpStartRe : Pattern :=
  grp 1 (plus stampClass) ++ lit ":" ++ star space ++ grp 2 (plus nicClass) ++ lit ":" ++
  star space ++ lit "Acquiring" ++ star space ++ lit "DHCPv4" ++ star space ++ lit "lease" ++
  star space ++ eol

def ipGetRe : Pattern :=
  grp 1 (plus stampClass) ++ lit ":" ++ star space ++ grp 2 (plus nicClass) ++ lit ":" ++
  star space ++ lit "DHCPv4" ++ star space ++ lit "address" ++ star space ++
  grp 3 (plus stampClass) ++ lit "/" ++ grp 4 (plus decimal) ++ star space ++ lit "via" ++
  star space ++ grp 5 (plus stampClass) ++ star space ++ eol

def dhcpServerRe : Pattern :=
  grp 1 (plus stampClass) ++ lit ":" ++ star space ++ grp 2 (plus nicClass) ++ lit ":" ++
  star space ++ lit "DHCPv4" ++ star space ++ lit "Server:" ++ star space ++
  grp 3 (plus stampClass) ++ star space ++ eol

def dnsServerRe : Pattern :=
  grp 1 (plus stampClass) ++ lit ":" ++ star space ++ grp 2 (plus nicClass) ++ lit ":" ++
  star space ++ lit "DNSv4" ++ star space ++ lit "Server" ++ plus space ++ plus decimal ++
  lit ":" ++ star space ++ grp 3 (plus stampClass) ++ star space ++ eol

def ipLostRe : Pattern :=
  grp 1 (plus stampClass) ++ lit ":" ++ star space ++ grp 2 (plus nicClass) ++ lit ":" ++
  star space ++ lit "Lost" ++ star space ++ lit "carrier" ++ star space ++ eol

/-! ## Records -/

/-- `_InfoBlk`: what is known of the address of one carrier period. -/
structure RMInfoBlk where
  tDhcpS : ℚ
  tDhcpE : Option ℚ
  tIpS : Option ℚ
  tIpE : ℚ
  ip : Option (List Char)
  ipPrefix : Option (List Char)
  gw : Option (List Char)
  intf : Intf
  dhcpServer : Option (List Char)
  dnsServers : Option (List (List Char))
  deriving DecidableEq, Repr

/-- The dictionary from which a record is built, with `none` for a missing key. The keys
`T_ip_e` and `intf` are only set right before the record is built. -/
structure RMDraft where
  tDhcpS : Option ℚ := none
  tDhcpE : Option (Option ℚ) := none
  tIpS : Option (Option ℚ) := none
  ip : Option (Option (List Char)) := none
  ipPrefix : Option (Option (List Char)) := none
  gw : Option (Option (List Char)) := none
  dhcpServer : Option (List Char) := none
  dnsServers : Option (List (List Char)) := none
  deriving DecidableEq, Repr

/-- The call `_InfoBlk(**info_blk)`: a missing argument is an error. -/
def RMDraft.build (d : RMDraft) (tIpE : ℚ) (intf : Intf) : Except PyError RMInfoBlk :=
  match d.tDhcpS, d.tDhcpE, d.tIpS, d.ip, d.ipPrefix, d.gw with
  | some tDhcpS, some tDhcpE, some tIpS, some ip, some ipPrefix, some gw =>
    .ok { tDhcpS, tDhcpE, tIpS, tIpE, ip, ipPrefix, gw, intf,
          dhcpServer := d.dhcpServer, dnsServers := d.dnsServers }
  | _, _, _, _, _, _ => .error .typeError

inductive RMState where
  | gainedCarrier | getIp | lostCarrier
  deriving DecidableEq, Repr

/-- The entry of an interface in `intf_results`. -/
structure RMEntry where
  state : RMState := .lostCarrier
  infoBlkList : List RMInfoBlk := []
  infoBlk : RMDraft := {}

/-- What a row reports. -/
inductive RMEvent where
  | dhcpStart
  | ipGet (ip ipPrefix gw : List Char)
  | ipLost
  | dhcpServer (ip : List Char)
  | dnsServer (ip : List Char)
  deriving DecidableEq, Repr

/-- The first pattern that matches decides; the timestamp and the interface come with it. -/
def RMEvent.ofRow (row : Row) : Option (List Char × Intf × RMEvent) :=
  match exec dhcpStartRe row with
  | some m => some (m.group 1, m.group 2, .dhcpStart)
  | none =>
    match exec ipGetRe row with
    | some m => some (m.group 1, m.group 2, .ipGet (m.group 3) (m.group 4) (m.group 5))
    | none =>
      match exec ipLostRe row with
      | some m => some (m.group 1, m.group 2, .ipLost)
      | none =>
        match exec dhcpServerRe row with
        | some m => some (m.group 1, m.group 2, .dhcpServer (m.group 3))
        | none => (exec dnsServerRe row).map fun m => (m.group 1, m.group 2, .dnsServer (m.group 3))

/-! ## The parser -/

/-- What an event does to the entry of its interface. -/
def RMEntry.step (e : RMEntry) (ts : ℚ) (intf : Intf) : RMEvent → Except PyError RMEntry
  | .dhcpStart =>
    if e.state = .lostCarrier then
      .ok { e with state := .gainedCarrier, infoBlk := { e.infoBlk with tDhcpS := some ts } }
    else .error .assertionError
  | .ipGet ip ipPrefix gw =>
    if e.state = .gainedCarrier then
      .ok { e with
        state := .getIp
        infoBlk := { e.infoBlk with
          tDhcpE := some (some ts), tIpS := some (some ts), ip := some (some ip),
          ipPrefix := some (some ipPrefix), gw := some (some gw) } }
    else .error .assertionError
  | .ipLost =>
    -- without an address the fields of the address are set to `None`
    let draft :=
      if e.state = .getIp then e.infoBlk
      else { e.infoBlk with
        tDhcpE := some none, tIpS := some none, ip := some none, ipPrefix := some none,
        gw := some none }
    match draft.build ts intf with
    | .error err => .error err
    | .ok blk => .ok { state := .lostCarrier, infoBlkList := e.infoBlkList ++ [blk], infoBlk := {} }
  | .dhcpServer ip => .ok { e with infoBlk := { e.infoBlk with dhcpServer := some ip } }
  | .dnsServer ip =>
    .ok { e with infoBlk := { e.infoBlk with
      dnsServers := some (e.infoBlk.dnsServers.getD [] ++ [ip]) } }

/-- One row. The timestamp is converted before the interface is looked up. -/
def RMParser.parseRow (intfList : List Intf) (entries : Intf → RMEntry) (row : Row) :
    Except PyError (Intf → RMEntry) :=
  match RMEvent.ofRow row with
  | none => .ok entries
  | some (stamp, intf, event) =>
    match float stamp with
    | none => .error .valueError
    | some ts =>
      if intfList.contains intf then
        match (entries intf).step ts intf event with
        | .error err => .error err
        | .ok e => .ok (Function.update entries intf e)
      else .ok entries

/-- `RMParser.parse`: the records of each interface. -/
def RMParser.parse (intfList : List Intf) (rows : List Row) :
    Except PyError (Intf → List RMInfoBlk) :=
  (rows.foldlM (RMParser.parseRow intfList) fun _ => {}).map fun entries intf =>
    (entries intf).infoBlkList

end CarFi.Analyzer

import CarFi.Analyzer.LogLine
import CarFi.Library.SerialNumber
import CarFi.Library.Stream

/-!
# The bytes of a TCP test

`_TCPSingleParser._parsing_pcap` of `analyzer/lib/tcpparser.py`, from the packets on. For each
direction of each flow it counts the bytes that were acknowledged, from the acknowledgements of
the packets that go the other way.
-/
namespace CarFi.Analyzer

open Library Library.PyText Library.SerialNumber

/-! ## The parser -/

/-- The endpoints of a flow: addresses as bytes, and ports. -/
structure FlowKey where
  cip : List UInt8
  cport : Nat
  sip : List UInt8
  sport : Nat
  deriving DecidableEq, Repr

/-- From the client to the server, index 0, or back, index 1. -/
inductive FlowDir where
  | c2s | s2c
  deriving DecidableEq, Repr

def FlowDir.other : FlowDir → FlowDir
  | .c2s => .s2c
  | .s2c => .c2s

inductive FlowType where
  | upload | download
  deriving DecidableEq, Repr

/-- The direction of the data of a test. -/
def FlowType.selector : FlowType → FlowDir
  | .upload => .c2s
  | .download => .s2c

/-- `_FlowStat` -/
structure FlowStat where
  ackedBytes : Nat := 0
  firstSeq : Option UInt32 := none
  lastAck : Option UInt32 := none
  deriving DecidableEq, Repr

structure TcpPacket where
  src : List UInt8
  sport : Nat
  dst : List UInt8
  dport : Nat
  flags : UInt8
  seq : UInt32
  ack : UInt32
  deriving DecidableEq, Repr

inductive Packet where
  | other
  | tcp (tcp : TcpPacket)
  deriving DecidableEq, Repr

def TcpPacket.isSyn (tcp : TcpPacket) : Bool := tcp.flags &&& 0x02 != 0

def TcpPacket.isAck (tcp : TcpPacket) : Bool := tcp.flags &&& 0x10 != 0

/-- What the profile tells of the test: the keys of `self.flows`, and the direction. -/
structure TcpTest where
  flows : List FlowKey
  flows_nodup : flows.Nodup
  type : FlowType

/-- The flow of a packet and the direction in which the packet goes. -/
def TcpTest.sideOf (test : TcpTest) (tcp : TcpPacket) : Option (FlowKey × FlowDir) :=
  if ⟨tcp.src, tcp.sport, tcp.dst, tcp.dport⟩ ∈ test.flows then
    some (⟨tcp.src, tcp.sport, tcp.dst, tcp.dport⟩, .c2s)
  else if ⟨tcp.dst, tcp.dport, tcp.src, tcp.sport⟩ ∈ test.flows then
    some (⟨tcp.dst, tcp.dport, tcp.src, tcp.sport⟩, .s2c)
  else none

/-- The same for packets of any kind; those without an acknowledgement are skipped. -/
def TcpTest.side (test : TcpTest) : Packet → Option (FlowKey × FlowDir)
  | .other => none
  | .tcp tcp => if tcp.isAck then test.sideOf tcp else none

/-- The counters of all flows, and the times of the first and the last packet. -/
structure PcapState where
  stats : FlowKey → FlowDir → FlowStat := fun _ _ => {}
  tSPcap : Option ℚ := none
  tEPcap : Option ℚ := none

def PcapState.setStat (st : PcapState) (k : FlowKey) (d : FlowDir) (s : FlowStat) : PcapState :=
  { st with stats := Function.update st.stats k (Function.update (st.stats k) d s) }

/-- An acknowledgement after the first one. A gap of 2 GB or more is one that is out of order. -/
def FlowStat.advance (s : FlowStat) (ack : UInt32) : Except PyError FlowStat :=
  match s.lastAck with
  | none => .error .typeError
  | some last =>
    let ackGap := gap 31 ack.toNat last.toNat
    if ackGap ≠ 0 ∧ ackGap < 0x80000000 then
      .ok { s with lastAck := some ack, ackedBytes := s.ackedBytes + ackGap }
    else .ok s

/-- The counters after a packet of the flow `k` in the direction `d`. -/
def PcapState.count (st : PcapState) (k : FlowKey) (d : FlowDir) (tcp : TcpPacket) :
    Except PyError PcapState :=
  let stat := st.stats k d
  match stat.firstSeq with
  | none =>
    let st := st.setStat k d { stat with firstSeq := some tcp.seq, ackedBytes := 0 }
    .ok (st.setStat k d.other { st.stats k d.other with lastAck := some tcp.ack })
  | some _ => ((st.stats k d.other).advance tcp.ack).map (st.setStat k d.other)

/-- One packet, with the time at which it was captured. -/
def TcpTest.parsePacket (test : TcpTest) (st : PcapState) :
    ℚ × Packet → Except PyError PcapState
  | (_, .other) => .ok st
  | (ts, .tcp tcp) =>
    match test.side (.tcp tcp) with
    | none => .ok st
    | some (k, d) =>
      -- the test starts with the first packet that is not the SYN of the client
      let start := if d = .s2c ∨ ¬tcp.isSyn then st.tSPcap.or (some ts) else st.tSPcap
      PcapState.count { st with tSPcap := start, tEPcap := some ts } k d tcp

/-- The counters, and the sum of those in the direction of the data. -/
structure PcapResult extends PcapState where
  totalBytesPcap : Nat

/-- `_parsing_pcap` -/
def TcpTest.parsingPcap (test : TcpTest) (packets : List (ℚ × Packet)) :
    Except PyError PcapResult :=
  (packets.foldlM test.parsePacket {}).map fun st =>
    { st with totalBytesPcap :=
        (test.flows.map fun k => (st.stats k test.type.selector).ackedBytes).sum }

end CarFi.Analyzer

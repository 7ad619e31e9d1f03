import CarFi.Analyzer.RmParser
import CarFi.Analyzer.TcpParser
import CarFi.Analyzer.WpaParser
import CarFi.Library.Sweep
import Mathlib.Algebra.Order.Field.Rat

/-!
# Joining the records of an experiment

The loop of `Parser._parse_exp` that links the records of all layers. For each interface, one
pass over the L2 records moves four cursors: over the signal samples, the GPS points, the DHCP
records and the TCP tests. `naiveIntf` states the same join without cursors, with the sets of
the entries already used. `np.average`, `np.std` and the distance of `geopy` are parameters.
-/
namespace CarFi.Analyzer

open Library

/-! ## Inputs -/

/-- An L2 record with all its attributes set. -/
structure L2Info where
  essid : List Char
  bssid : List Char
  freq : Nat
  level : Int
  type : AssocType
  tAuthS : Option ℚ
  tAuthE : Option ℚ
  tAssocS : Option ℚ
  tAssocE : Option ℚ
  tHsS : Option ℚ
  tHsE : Option ℚ
  tConnS : Option ℚ
  tConnE : Option ℚ

structure LinkInfo where
  time : ℚ
  signal : ℚ

structure GPSInfo where
  latitude : ℚ
  longitude : ℚ
  time : ℚ

/-- A TCP test; the statistics of its flows are kept as they are. -/
structure TCPInfo (φ : Type*) where
  tSApp : ℚ
  tEApp : ℚ
  tSPcap : Option ℚ
  tEPcap : Option ℚ
  type : FlowType
  cc : List Char
  flowNb : Nat
  flows : φ
  totalBytesApp : Nat
  totalBytesPcap : Option Nat
  gpApp : ℚ
  gpPcap : Option ℚ
  localId : Nat
  pktTotal : ℚ
  pktRxmt : ℚ
  pktLossRate : Option ℚ

/-- A row of the result: the L2 record, the figures of its interval and the records it is
paired with. -/
structure APTCPInfo (φ ρ : Type*) where
  interface : Intf
  l2 : L2Info
  l2AvgSignal : Option ℚ := none
  l2StderrSignal : Option ρ := none
  avgSpeed : Option ℚ := none
  distKm : Option ℚ := none
  l3 : Option RMInfoBlk := none
  tcp : Option (TCPInfo φ) := none

section Join

variable {φ ρ : Type*} (geoDistance : ℚ × ℚ → ℚ × ℚ → ℚ)
  (average : List ℚ → ℚ) (std : List ℚ → ρ)

def GPSInfo.coord (g : GPSInfo) : ℚ × ℚ := (g.latitude, g.longitude)

/-! ## The sweep -/

/-- The four indices. -/
structure Cursors where
  link : Nat := 0
  gps : Nat := 0
  l3 : Nat := 0
  tcp : Nat := 0

/-- `while idx < len(xs) and xs[idx].time < lo: idx += 1` -/
def skipTo {α : Type*} (time : α → ℚ) (xs : List α) (idx : Nat) (lo : ℚ) : Nat :=
  (whileFrom (fun a => time a < lo) (fun _ _ _ => ()) xs idx ()).1

/-- The samples of an interval, and the index after them. -/
def sweepLink (links : List LinkInfo) (idx : Nat) (lo hi : ℚ) : Nat × List ℚ :=
  whileFrom (fun a => a.time ≤ hi) (fun signals _ a => signals ++ [a.signal]) links
    (skipTo LinkInfo.time links idx lo) []

/-- The body of the loop over the points: their number and the distance so far. -/
def gpsBody (gps : List GPSInfo) (s : Nat × Option ℚ) (i : Nat) (a : GPSInfo) :
    Nat × Option ℚ :=
  let pts := s.1 + 1
  let dist := if pts = 2 then some 0 else s.2
  let dist := if pts ≥ 2 then
      dist.bind fun d => (gps[i - 1]?).map fun b => d + geoDistance a.coord b.coord
    else dist
  (pts, dist)

/-- The number of points of an interval and their distance, and the index after them. -/
def sweepGps (gps : List GPSInfo) (idx : Nat) (lo hi : ℚ) : Nat × Nat × Option ℚ :=
  whileFrom (fun a => a.time ≤ hi) (gpsBody geoDistance gps) gps
    (skipTo GPSInfo.time gps idx lo) (0, none)

/-- The record at the cursor, if it starts in the interval. -/
def sweepPair {α : Type*} (time : α → ℚ) (xs : List α) (idx : Nat) (lo hi : ℚ) :
    Nat × Option α :=
  let idx := skipTo time xs idx lo
  match xs[idx]? with
  | some a => if time a ≤ hi then (idx + 1, some a) else (idx, none)
  | none => (idx, none)

/-- `gps_distance / ((l2_conn_t_e - l2_conn_t_s) / 3600)` -/
def avgSpeedOf (dist lo hi : ℚ) : Except PyError ℚ :=
  if (hi - lo) / 3600 = 0 then .error .zeroDivisionError else .ok (dist / ((hi - lo) / 3600))

/-- One L2 record of the loop. -/
def sweepStep (intf : Intf) (links : List LinkInfo) (gps : List GPSInfo) (l3s : List RMInfoBlk)
    (tcps : List (TCPInfo φ)) (c : Cursors) (l2 : L2Info) :
    Except PyError (Cursors × APTCPInfo φ ρ) :=
  match l2.tConnE with
  | none => .ok (c, { interface := intf, l2 := l2 })
  | some hi =>
    match l2.tConnS with
    | none =>
      -- a cursor inside its list is compared with `None`
      if c.link < links.length ∨ c.gps < gps.length ∨ c.l3 < l3s.length ∨
        c.tcp < tcps.length then
        .error .typeError
      else .ok (c, { interface := intf, l2 := l2 })
    | some lo =>
      let link := sweepLink links c.link lo hi
      let dist := sweepGps geoDistance gps c.gps lo hi
      let l3 := sweepPair RMInfoBlk.tDhcpS l3s c.l3 lo hi
      let tcp := sweepPair TCPInfo.tSApp tcps c.tcp lo hi
      let cursors : Cursors := { link := link.1, gps := dist.1, l3 := l3.1, tcp := tcp.1 }
      let row : APTCPInfo φ ρ :=
        { interface := intf
          l2 := l2
          l2AvgSignal := if link.2.length > 0 then some (average link.2) else none
          l2StderrSignal := if link.2.length > 0 then some (std link.2) else none
          l3 := l3.2
          tcp := tcp.2 }
      match dist.2.2 with
      | none => .ok (cursors, row)
      | some d =>
        match avgSpeedOf d lo hi with
        | .error e => .error e
        | .ok speed => .ok (cursors, { row with avgSpeed := some speed, distKm := some d })

/-- The records that the parsers give for an experiment. -/
structure ExpInfos (φ : Type*) where
  l2 : Intf → List L2Info
  link : Intf → List LinkInfo
  gps : List GPSInfo
  l3 : Intf → List RMInfoBlk
  tcp : Intf → List (TCPInfo φ)

/-- The rows of one interface, from given cursors on. -/
def sweepIntf (infos : ExpInfos φ) (intf : Intf) :
    Cursors → List L2Info → Except PyError (List (APTCPInfo φ ρ))
  | _, [] => .ok []
  | c, l2 :: l2s =>
    match sweepStep geoDistance average std intf (infos.link intf) infos.gps (infos.l3 intf)
      (infos.tcp intf) c l2 with
    | .error e => .error e
    | .ok (c, row) => (sweepIntf infos intf c l2s).map (row :: ·)

/-- The rows of all interfaces. -/
def sweep (infos : ExpInfos φ) : List Intf → Except PyError (List (APTCPInfo φ ρ))
  | [] => .ok []
  | intf :: intfs =>
    match sweepIntf geoDistance average std infos intf {} (infos.l2 intf) with
    | .error e => .error e
    | .ok rows => (sweep infos intfs).map (rows ++ ·)

/-! ## The naive join -/

/-- The entries that earlier records used. -/
structure UsedSets where
  link : Finset Nat := ∅
  gps : Finset Nat := ∅
  l3 : Finset Nat := ∅
  tcp : Finset Nat := ∅

/-- The length of a path, for at least two points. -/
def pathLength (pts : List GPSInfo) : Option ℚ :=
  if pts.length < 2 then none
  else some (List.zipWith (fun a b => geoDistance b.coord a.coord) pts pts.tail).sum

/-- A row with the positions of the records it is paired with. -/
structure Linked (φ ρ : Type*) where
  row : APTCPInfo φ ρ
  l3Idx : Option Nat := none
  tcpIdx : Option Nat := none

def positions {α : Type*} (xs : List (α × Nat)) : Finset Nat := (xs.map Prod.snd).toFinset

/-- One L2 record: every list is searched for the unused entries of its interval. -/
def naiveStep (infos : ExpInfos φ) (intf : Intf) (used : UsedSets) (l2 : L2Info) :
    UsedSets × Linked φ ρ :=
  match l2.tConnS, l2.tConnE with
  | some lo, some hi =>
    let link := available LinkInfo.time (infos.link intf) used.link lo hi
    let gps := available GPSInfo.time infos.gps used.gps lo hi
    let l3 := (available RMInfoBlk.tDhcpS (infos.l3 intf) used.l3 lo hi).head?
    let tcp := (available TCPInfo.tSApp (infos.tcp intf) used.tcp lo hi).head?
    let signals := link.map fun x => x.1.signal
    let dist := pathLength geoDistance (gps.map Prod.fst)
    ({ link := used.link ∪ positions link
       gps := used.gps ∪ positions gps
       l3 := used.l3 ∪ positions l3.toList
       tcp := used.tcp ∪ positions tcp.toList },
     { row :=
        { interface := intf
          l2 := l2
          l2AvgSignal := if signals = [] then none else some (average signals)
          l2StderrSignal := if signals = [] then none else some (std signals)
          avgSpeed := dist.map fun d => d / ((hi - lo) / 3600)
          distKm := dist
          l3 := l3.map Prod.fst
          tcp := tcp.map Prod.fst }
       l3Idx := l3.map Prod.snd
       tcpIdx := tcp.map Prod.snd })
  | _, _ => (used, { row := { interface := intf, l2 := l2 } })

def naiveIntf (infos : ExpInfos φ) (intf : Intf) : UsedSets → List L2Info → List (Linked φ ρ)
  | _, [] => []
  | used, l2 :: l2s =>
    let step := naiveStep geoDistance average std infos intf used l2
    step.2 :: naiveIntf infos intf step.1 l2s

/-! ## Well-ordered inputs -/

/-- The interval of a complete record. -/
def L2Info.interval (l2 : L2Info) : Option (ℚ × ℚ) :=
  l2.tConnE.bind fun hi => l2.tConnS.map fun lo => (lo, hi)

/-- The lists are ordered by time, and the intervals of the complete L2 records are proper and
follow each other. -/
structure ExpInfos.Ordered (infos : ExpInfos φ) (intf : Intf) : Prop where
  link : TimeSorted LinkInfo.time (infos.link intf)
  gps : TimeSorted GPSInfo.time infos.gps
  l3 : TimeSorted RMInfoBlk.tDhcpS (infos.l3 intf)
  tcp : TimeSorted TCPInfo.tSApp (infos.tcp intf)
  proper : ∀ l2 ∈ infos.l2 intf, ∀ hi ∈ l2.tConnE, ∃ lo ∈ l2.tConnS, lo < hi
  follow : ((infos.l2 intf).filterMap L2Info.interval).IsChain fun a b => a.2 ≤ b.1

end Join

end CarFi.Analyzer

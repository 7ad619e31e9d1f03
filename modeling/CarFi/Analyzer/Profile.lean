import CarFi.Analyzer.TcpParser
import CarFi.Library.Blocks
import CarFi.Library.PyLines
import Mathlib.Data.List.Nodup

/-!
# The profile of a TCP test

`_TCPSingleParser._parsing_profile` and `parse` of `analyzer/lib/tcpparser.py`. A test without a
profile or without a capture is left out of the results. `none` is an exception: a text that is no
number, no direction or no address, or times that are equal.
-/
namespace CarFi.Analyzer

open Library Library.PyText

/-- `FlowType(s)` -/
def FlowType.ofText (s : List Char) : Option FlowType :=
  if s = "upload".toList then some .upload
  else if s = "download".toList then some .download
  else none

/-- A number of an address in decimal notation. -/
def octet? (ds : List Char) : Option UInt8 :=
  if ds ≠ [] ∧ ds.all ascii09 ∧ (ds.head? = some '0' → ds = ['0']) ∧
    digitsValue ds < 256 then
    some (UInt8.ofNat (digitsValue ds))
  else none

/-- `socket.inet_aton(s)` on four decimal numbers with dots. -/
def inetAton (s : List Char) : Option (List UInt8) :=
  match (s.splitOn '.').mapM octet? with
  | some [a, b, c, d] => some [a, b, c, d]
  | _ => none

/-- The line of a flow. -/
def flowOf (line : List Char) : Option FlowKey :=
  match line.splitOn ' ' with
  | [cip, cport, sip, sport] => do
    let cport ← int cport
    let sport ← int sport
    let cip ← inetAton cip
    let sip ← inetAton sip
    -- the texts hold no sign when they come from a profile
    return ⟨cip, cport.toNat, sip, sport.toNat⟩
  | _ => none

/-- The keys of a dictionary after an assignment. -/
def insertKey {κ : Type} [DecidableEq κ] (keys : {ks : List κ // ks.Nodup}) (k : κ) :
    {ks : List κ // ks.Nodup} :=
  if h : k ∈ keys.1 then keys
  else ⟨keys.1 ++ [k],
    by simpa [List.nodup_append] using ⟨keys.2, fun x hx hk => h (hk ▸ hx)⟩⟩

/-- What is read from a profile. -/
structure Profile where
  tSApp : ℚ
  tEApp : ℚ
  type : FlowType
  cc : List Char
  totalBytesApp : Int
  gpApp : ℚ
  flowNb : Int
  flows : {ks : List FlowKey // ks.Nodup}

/-- `self.gp_app`, in Mbit/s. -/
def goodput (totalBytesApp : Int) (tSApp tEApp : ℚ) : Option ℚ :=
  if tEApp - tSApp = 0 then none else some (totalBytesApp * 8 / (tEApp - tSApp) / 1000000)

/-- `_parsing_profile` -/
def parsingProfile (text : List Char) : Option Profile := do
  let line := fun i => strip (readline text i)
  let tSApp ← signedFloat (line 0)
  let tEApp ← signedFloat (line 1)
  let type ← FlowType.ofText (line 2)
  let cc := line 3
  let totalBytesApp ← int (line 4)
  let gpApp ← goodput totalBytesApp tSApp tEApp
  let flowNb ← int (line 5)
  let flows ← (List.range flowNb.toNat).foldlM
    (fun flows i => (flowOf (line (6 + i))).map (insertKey flows)) ⟨[], List.nodup_nil⟩
  return { tSApp, tEApp, type, cc, totalBytesApp, gpApp, flowNb, flows }

def Profile.test (p : Profile) : TcpTest := ⟨p.flows.1, p.flows.2, p.type⟩

/-- The files of a test: its profile and its capture, if they are there. -/
structure TestDir where
  profile : Option (List Char)
  pcap : Option (List (ℚ × Packet))

/-- `_pool_func`: `some none` is a test that is left out. -/
def poolFunc (dir : TestDir) : Option (Option (Profile × PcapResult)) :=
  match dir.profile, dir.pcap with
  | some text, some packets => do
    let p ← parsingProfile text
    let r ← (p.test.parsingPcap packets).toOption
    return some (p, r)
  | _, _ => some none

/-- `TCPParser.parse` on the tests of an interface. -/
def tcpResults (dirs : List TestDir) : Option (List (Profile × PcapResult)) :=
  (dirs.mapM poolFunc).map fun results =>
    (results.filterMap id).mergeSort fun x y => x.1.tSApp ≤ y.1.tSApp

end CarFi.Analyzer

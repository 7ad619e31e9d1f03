import CarFi.Analyzer.TcpParser
import CarFi.Library.PyLines
import CarFi.Library.Printf

/-!
# The profile that a tester writes

`sig_handler` of `tester/client.c`: the tester sums up the bytes of its connections and takes the
earliest of their starts. It writes nothing if a connection is not established.
-/
namespace CarFi.Tester

open Analyzer Library Library.PyText Library.Printf

/-- `struct timeval`, as `gettimeofday` fills it in. -/
structure Timeval where
  sec : Nat
  usec : Nat
  usec_lt : usec < 1000000

/-- `struct in_addr` -/
structure InAddr where
  a : UInt8
  b : UInt8
  c : UInt8
  d : UInt8
  deriving DecidableEq

def InAddr.bytes (x : InAddr) : List UInt8 := [x.a, x.b, x.c, x.d]

/-- `inet_ntoa(x)` -/
def inetNtoa (x : InAddr) : List Char :=
  ['.'].intercalate (x.bytes.map fun byte => decText byte.toNat)

/-- `cli_thread_info_t`: what the thread of a connection has stored, or zeros. -/
structure CliThreadInfo where
  totalBytes : Nat
  start : Timeval
  sinAddr : InAddr
  sinPort : UInt16

/-- The members of `global_args` that are written. -/
structure GlobalArgs where
  serverIp : InAddr
  serverPort : UInt16
  type : FlowType
  ccType : List Char

/-- `%d.%06d` of the members of a `struct timeval`; `%d` prints 32 bits. -/
def Timeval.text (t : Timeval) : List Char :=
  intText (Int.bmod t.sec (2 ^ 32)) ++ '.' :: zeroPad 6 (decText t.usec)

def Timeval.Before (t t' : Timeval) : Prop := t.sec < t'.sec ∨ t.sec = t'.sec ∧ t.usec < t'.usec

instance (t t' : Timeval) : Decidable (t.Before t') := inferInstanceAs (Decidable (_ ∨ _))

/-- The thread has stored its start and its local address. -/
def CliThreadInfo.Established (info : CliThreadInfo) : Prop :=
  ¬(info.start.sec = 0 ∧ info.start.usec = 0 ∨ info.sinAddr = ⟨0, 0, 0, 0⟩)

instance (info : CliThreadInfo) : Decidable info.Established := inferInstanceAs (Decidable (¬_))

/-- The loop over the connections: `sum_bytes` and `tv_start`, or `exit(-1)`. -/
def sumUp (sumBytes : Nat) (tvStart : Option Timeval) :
    List CliThreadInfo → Option (Nat × Option Timeval)
  | [] => some (sumBytes, tvStart)
  | info :: infos =>
    let sumBytes := (sumBytes + info.totalBytes) % 2 ^ 64
    if info.Established then
      match tvStart with
      | none => sumUp sumBytes (some info.start) infos
      | some t => sumUp sumBytes (some (if info.start.Before t then info.start else t)) infos
    else none

def typeText : FlowType → List Char
  | .upload => "upload".toList
  | .download => "download".toList

def flowLine (args : GlobalArgs) (info : CliThreadInfo) : List Char :=
  [' '].intercalate [inetNtoa info.sinAddr, decText info.sinPort.toNat, inetNtoa args.serverIp,
    decText args.serverPort.toNat]

/-- The lines of a profile. -/
def profileLines (args : GlobalArgs) (infos : List CliThreadInfo) (tvStart tvEnd : Timeval)
    (sumBytes : Nat) : List (List Char) :=
  [tvStart.text, tvEnd.text, typeText args.type, args.ccType, decText sumBytes,
    decText infos.length] ++ infos.map (flowLine args)

/-- `sig_handler`: the text of the profile, if one is written. Without connections `tv_start` is
`NULL`. -/
def sigHandler (args : GlobalArgs) (infos : List CliThreadInfo) (tvEnd : Timeval) :
    Option (List Char) :=
  match sumUp 0 none infos with
  | some (sumBytes, some tvStart) => some (textOf (profileLines args infos tvStart tvEnd sumBytes))
  | _ => none

end CarFi.Tester

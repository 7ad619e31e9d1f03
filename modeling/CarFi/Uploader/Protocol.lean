import CarFi.Library.Wire

/-!
# What both ends of an upload share

Each end is a sequential program. Its state says which call it is in (`Op`), and the result of
the call (`Res`) takes it to the next one, so that a run of the program is any sequence of
results that the system gives.
-/
namespace CarFi.Uploader

open Library

/-- A call that a program makes. -/
inductive Op where
  | connect
  | recv (n : Int)
  | send (msg : Bytes)
  | getsize (path : Bytes)
  | openRead (path : Bytes)
  | read (n : Nat)
  | openWrite (path : Bytes)
  | write (chunk : Bytes)
  | flush
  | system (command : Bytes)
  | closeFile
  | closeSocket
  deriving DecidableEq

/-- What a call returns. -/
inductive Res where
  | done
  | bytes (bs : Bytes)
  | size (n : Nat)
  | raised
  deriving DecidableEq

def msgHdrLen : Int := 4

def chunkLimit : Int := 4096

/-- The bytes of an ASCII text. -/
def ascii (s : String) : Bytes := s.toList.map fun c => UInt8.ofNat c.toNat

def slash : UInt8 := 47

/-- `os.path.join(a, b)` -/
def join (a b : Bytes) : Bytes :=
  if b.head? = some slash then b
  else if a = [] ∨ a.getLast? = some slash then a ++ b
  else a ++ slash :: b

/-- The name of a file in a directory, as `os.listdir` gives it. -/
structure IsFileName (name : Bytes) : Prop where
  nonempty : name ≠ []
  noSlash : slash ∉ name
  noNul : 0 ∉ name
  notDots : name ≠ ascii "." ∧ name ≠ ascii ".."
  short : name.length ≤ 255

/-- The loop of `_recv_msg`: the bytes still to come and those received. -/
structure RecvMsg where
  left : Int
  msg : Bytes := []

/-- One `recv` of the loop. -/
def RecvMsg.add (r : RecvMsg) (tmp : Bytes) : RecvMsg :=
  { left := r.left - tmp.length, msg := r.msg ++ tmp }

/-- The loop when it has got some bytes: it returns to `k`, or waits for the rest. -/
def RecvMsg.loop {σ : Type*} (r : RecvMsg) (wait : RecvMsg → σ) (k : Bytes → σ) : σ :=
  if r.left = 0 then k r.msg else wait r

/-- The loop is a part of the way through receiving `msg`. -/
structure RecvMsg.Within (r : RecvMsg) (msg rest : Bytes) : Prop where
  split : r.msg ++ rest = msg
  left : r.left = rest.length

theorem RecvMsg.within_start (msg : Bytes) : RecvMsg.Within { left := msg.length } msg msg :=
  ⟨rfl, rfl⟩

/-- A part of the rest arrives. -/
theorem RecvMsg.Within.add {r : RecvMsg} {msg tmp rest : Bytes} (h : r.Within msg (tmp ++ rest)) :
    (r.add tmp).Within msg rest := by
  refine ⟨?_, ?_⟩
  · simp [RecvMsg.add, ← h.split]
  · simp [RecvMsg.add, h.left]

/-- The loop ends when nothing is left. -/
theorem RecvMsg.Within.left_eq_zero_iff {r : RecvMsg} {msg rest : Bytes} (h : r.Within msg rest) :
    r.left = 0 ↔ rest = [] := by
  rw [h.left]
  simp

theorem RecvMsg.Within.msg_eq {r : RecvMsg} {msg : Bytes} (h : r.Within msg []) : r.msg = msg := by
  simpa using h.split

section Loop

variable {σ : Type*} {wait : RecvMsg → σ} {k : Bytes → σ} {r : RecvMsg}

theorem RecvMsg.loop_of (P : σ → Prop) (hk : ∀ msg, P (k msg)) (hwait : P (wait r)) :
    P (r.loop wait k) := by
  unfold RecvMsg.loop
  split
  · exact hk _
  · exact hwait

/-- One `recv` of the loop: it waits with less to come, or it is left. -/
theorem RecvMsg.loop_add_of (P : σ → Prop) {tmp : Bytes} (hpos : 0 < r.left) (hne : tmp ≠ [])
    (hwait : ∀ r' : RecvMsg, r'.left.toNat < r.left.toNat → P (wait r'))
    (hk : ∀ msg, P (k msg)) : P ((r.add tmp).loop wait k) := by
  refine loop_of P hk (hwait _ ?_)
  have hlen := List.length_pos_iff.mpr hne
  simp only [RecvMsg.add]
  omega

/-- The empty string leaves the loop where it is. -/
theorem RecvMsg.loop_add_nil (hpos : 0 < r.left) : (r.add []).loop wait k = wait r := by
  have hadd : r.add [] = r := by simp [RecvMsg.add]
  rw [hadd, RecvMsg.loop, if_neg hpos.ne']

/-- After a piece, the loop returns the message or receives on. -/
theorem RecvMsg.Within.loop_eq {msg rest : Bytes} (h : r.Within msg rest) :
    r.loop wait k = if rest = [] then k msg else wait r := by
  unfold RecvMsg.loop
  by_cases hrest : rest = []
  · subst hrest
    rw [if_pos (h.left_eq_zero_iff.mpr rfl), if_pos rfl, h.msg_eq]
  · rw [if_neg (h.left_eq_zero_iff.not.mpr hrest), if_neg hrest]

/-- The start of the loop for a message of a length that fits the header. -/
theorem RecvMsg.loop_start {msg : Bytes} (hlen : msg.length < 2 ^ 31) :
    RecvMsg.loop { left := unpackInt (be32 msg.length) } wait k =
      if msg = [] then k msg else wait { left := msg.length } := by
  rw [unpackInt_be32 hlen]
  exact (RecvMsg.within_start msg).loop_eq

end Loop

end CarFi.Uploader

import Mathlib.Data.List.Basic
import Mathlib.Tactic.NormNum

/-!
# Byte streams

Byte strings as they travel over a connection: the four-byte big-endian integers of
`struct.pack("!i", n)`, the byte strings that decode as UTF-8, and one direction of a connection
as a queue whose sender may end.
-/
namespace CarFi.Library

abbrev Bytes := List UInt8

/-! ## Big-endian integers -/

/-- The four lower bytes of a number, the highest first. -/
def be32 (m : Nat) : Bytes :=
  [UInt8.ofNat (m / 2 ^ 24), UInt8.ofNat (m / 2 ^ 16), UInt8.ofNat (m / 2 ^ 8), UInt8.ofNat m]

/-- `struct.pack("!i", n)`, which raises for a number that is no 32-bit integer. -/
def packInt : Int → Option Bytes
  | .ofNat m => if m < 2 ^ 31 then some (be32 m) else none
  | .negSucc m => if m < 2 ^ 31 then some (be32 (2 ^ 32 - (m + 1))) else none

def beNat (bs : Bytes) : Nat := bs.foldl (fun m b => m * 256 + b.toNat) 0

/-- `struct.unpack("!i", bs)[0]` of four bytes -/
def unpackInt (bs : Bytes) : Int :=
  if beNat bs < 2 ^ 31 then beNat bs else (beNat bs : Int) - 2 ^ 32

theorem beNat_be32 {m : Nat} (h : m < 2 ^ 32) : beNat (be32 m) = m := by
  simp only [beNat, be32, List.foldl_cons, List.foldl_nil, UInt8.toNat_ofNat']
  omega

theorem packInt_of_lt {n : Nat} (h : n < 2 ^ 31) : packInt n = some (be32 n) := if_pos h

theorem packInt_eq_none {n : Nat} : packInt n = none ↔ 2 ^ 31 ≤ n := by
  rw [← Nat.not_lt]
  exact ite_eq_right_iff.trans (by simp)

theorem unpackInt_be32 {n : Nat} (h : n < 2 ^ 31) : unpackInt (be32 n) = n := by
  rw [unpackInt, beNat_be32 (by omega), if_pos h]


/-! ## UTF-8 -/

/-- What may come next in a UTF-8 text: a new character, or `left` more bytes of the current
one of which the next is in `[lo, hi]`. -/
inductive Utf8 where
  | start
  | more (left : Nat) (lo hi : UInt8)
  | bad
  deriving DecidableEq

/-- One byte of a text. The bounds on the second byte exclude overlong forms, surrogates and
numbers over `0x10FFFF`. -/
def Utf8.next : Utf8 → UInt8 → Utf8
  | .start, b =>
    if b < 0x80 then .start
    else if 0xC2 ≤ b ∧ b ≤ 0xDF then .more 0 0x80 0xBF
    else if b = 0xE0 then .more 1 0xA0 0xBF
    else if b = 0xED then .more 1 0x80 0x9F
    else if 0xE1 ≤ b ∧ b ≤ 0xEF then .more 1 0x80 0xBF
    else if b = 0xF0 then .more 2 0x90 0xBF
    else if 0xF1 ≤ b ∧ b ≤ 0xF3 then .more 2 0x80 0xBF
    else if b = 0xF4 then .more 2 0x80 0x8F
    else .bad
  | .more left lo hi, b =>
    if lo ≤ b ∧ b ≤ hi then
      match left with
      | 0 => .start
      | left + 1 => .more left 0x80 0xBF
    else .bad
  | .bad, _ => .bad

/-- The byte string is the encoding of a text. -/
def isUtf8 (bs : Bytes) : Bool := bs.foldl Utf8.next .start = .start

theorem isUtf8_of_ascii {bs : Bytes} (h : ∀ b ∈ bs, b < 0x80) : isUtf8 bs = true := by
  unfold isUtf8
  rw [decide_eq_true_iff]
  induction bs with
  | nil => rfl
  | cons b bs ih =>
    have hb : Utf8.next .start b = .start := if_pos (h b List.mem_cons_self)
    rw [List.foldl_cons, hb]
    exact ih fun c hc => h c (List.mem_cons_of_mem _ hc)

/-! ## One direction of a connection -/

/-- The bytes sent and not yet received, and whether no more will be sent. -/
structure Chan where
  queue : Bytes := []
  ended : Bool := false

namespace Chan

def push (c : Chan) (bs : Bytes) : Chan := if c.ended then c else { c with queue := c.queue ++ bs }

def close (c : Chan) : Chan := { c with ended := true }

/-- The connection breaks: at most `k` of the bytes under way still arrive. -/
def cut (c : Chan) (k : Nat) : Chan := { queue := c.queue.take k, ended := true }

/-- A `recv(n)` returns `bs`: some of the bytes under way, or nothing after the end. -/
inductive Recv (c : Chan) (n : Int) : Bytes → Chan → Prop where
  | some {k : Nat} (hpos : 0 < k) (hn : (k : Int) ≤ n) (hk : k ≤ c.queue.length) :
      Recv c n (c.queue.take k) { c with queue := c.queue.drop k }
  | eof (hn : 0 < n) (hq : c.queue = []) (hended : c.ended = true) : Recv c n [] c

theorem Recv.split {c c' : Chan} {n : Int} {bs : Bytes} (h : c.Recv n bs c') :
    c.queue = bs ++ c'.queue ∧ c'.ended = c.ended ∧ (bs.length : Int) ≤ n := by
  cases h with
  | some hpos hn hk =>
    refine ⟨(List.take_append_drop _ _).symm, rfl, ?_⟩
    rw [List.length_take, Nat.min_eq_left hk]
    exact hn
  | eof hn hq hended => exact ⟨rfl, rfl, by simpa using hn.le⟩

end Chan

end CarFi.Library

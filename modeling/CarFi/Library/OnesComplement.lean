import Mathlib.Data.Nat.ModEq
import CarFi.Library.Wire

/-!
# One's complement sums

Sums in which the carry out of the highest bit is added back at the lowest one. Such a sum of 16-bit
words is determined by the plain sum: it is congruent to it modulo `2 ^ 16 - 1`, and it is `0` only
if all the words are. So it does not matter in which order the words are added, in how many bits, or
when the carries are added back.
-/
namespace CarFi.Library

/-- The one's complement sum of words whose plain sum is `s`. -/
def onesSum (s : ℕ) : ℕ := if s = 0 then 0 else (s - 1) % 65535 + 1

theorem onesSum_le (s : ℕ) : onesSum s ≤ 65535 := by
  unfold onesSum
  split <;> omega

theorem onesSum_modEq (s : ℕ) : onesSum s ≡ s [MOD 65535] := by
  unfold onesSum Nat.ModEq
  split <;> omega

theorem onesSum_eq_zero {s : ℕ} : onesSum s = 0 ↔ s = 0 := by
  unfold onesSum
  split <;> omega

/-- What determines the sum. -/
theorem eq_onesSum {r s : ℕ} (hle : r ≤ 65535) (hmod : r ≡ s [MOD 65535])
    (hzero : r = 0 ↔ s = 0) : r = onesSum s := by
  unfold onesSum
  unfold Nat.ModEq at hmod
  split
  · omega
  · omega

theorem onesSum_eq_iff {s : ℕ} : onesSum s = 65535 ↔ s ≠ 0 ∧ s ≡ 0 [MOD 65535] := by
  unfold onesSum Nat.ModEq
  split <;> omega

/-- A word that makes the sum of all words come to its greatest value. -/
theorem onesSum_complement (s : ℕ) : onesSum (s + (65535 - onesSum s)) = 65535 := by
  have hle := onesSum_le s
  have hmod := onesSum_modEq s
  have hzero := @onesSum_eq_zero s
  rw [onesSum_eq_iff]
  unfold Nat.ModEq at *
  omega

/-! ## Adding the carry back -/

/-- A 64-bit addition, and a second one of its carry. -/
def addCarry (sum word : ℕ) : ℕ :=
  let sum' := (sum + word) % 2 ^ 64
  if sum' < word then sum' + 1 else sum'

/-- A number below `2 ^ 64` that stands for the plain sum `s`. -/
structure StandsFor (r s : ℕ) : Prop where
  lt : r < 2 ^ 64
  modEq : r ≡ s [MOD 65535]
  zero : r = 0 ↔ s = 0

theorem StandsFor.addCarry {r s word w : ℕ} (h : StandsFor r s) (hw : StandsFor word w) :
    StandsFor (addCarry r word) (s + w) := by
  obtain ⟨hlt, hmod, hzero⟩ := h
  obtain ⟨hwlt, hwmod, hwzero⟩ := hw
  unfold Library.addCarry
  unfold Nat.ModEq at *
  dsimp only
  constructor
  · split <;> omega
  · unfold Nat.ModEq
    split <;> omega
  · split <;> omega

/-- The carries of a sum are added back until it fits into 16 bits. -/
def foldCarries (sum : ℕ) : ℕ :=
  if sum / 65536 = 0 then sum else foldCarries (sum % 65536 + sum / 65536)
  termination_by sum
  decreasing_by omega

theorem foldCarries_eq {r s : ℕ} (hmod : r ≡ s [MOD 65535]) (hzero : r = 0 ↔ s = 0) :
    foldCarries r = onesSum s := by
  fun_induction foldCarries r with
  | case1 r h => exact eq_onesSum (by omega) hmod hzero
  | case2 r h ih =>
    apply ih
    · unfold Nat.ModEq at *
      omega
    · omega

/-- The same with 16 bits: each carry is added back at once. -/
def addWord (sum word : ℕ) : ℕ := if 65535 < sum + word then sum + word - 65535 else sum + word

theorem foldl_addWord {words : List ℕ} (h : ∀ w ∈ words, w ≤ 65535) (s : ℕ) :
    words.foldl addWord (onesSum s) = onesSum (s + words.sum) := by
  induction words generalizing s with
  | nil => simp
  | cons w words ih =>
    obtain ⟨hw, hwords⟩ := List.forall_mem_cons.mp h
    have hstep : addWord (onesSum s) w = onesSum (s + w) := by
      have hle := onesSum_le s
      have hmod := onesSum_modEq s
      have hzero := @onesSum_eq_zero s
      unfold Nat.ModEq at hmod
      apply eq_onesSum <;> unfold addWord
      · split <;> omega
      · unfold Nat.ModEq
        split <;> omega
      · split <;> omega
    rw [List.foldl_cons, hstep, ih hwords, List.sum_cons, Nat.add_assoc]

/-! ## Bytes -/

/-- The number whose bytes are these, the lowest first. -/
def leNat : Bytes → ℕ
  | [] => 0
  | b :: bytes => b.toNat + 256 * leNat bytes

/-- The 16-bit words of a byte string, the lower byte first; the last one is filled up with a zero.
-/
def leWords : Bytes → List ℕ
  | [] => []
  | [b] => [b.toNat]
  | b :: c :: bytes => (b.toNat + 256 * c.toNat) :: leWords bytes

def wordSum (bytes : Bytes) : ℕ := (leWords bytes).sum

@[simp] theorem wordSum_nil : wordSum [] = 0 := rfl

@[simp] theorem wordSum_cons_cons (b c : UInt8) (bytes : Bytes) :
    wordSum (b :: c :: bytes) = b.toNat + 256 * c.toNat + wordSum bytes := by
  simp [wordSum, leWords]

theorem leWords_le (bytes : Bytes) : ∀ w ∈ leWords bytes, w ≤ 65535 := by
  fun_induction leWords bytes with
  | case1 => simp
  | case2 b =>
    intro w hw
    have := b.toNat_lt
    rw [List.mem_singleton.mp hw]
    omega
  | case3 b c bytes ih =>
    have := b.toNat_lt
    have := c.toNat_lt
    simp only [List.mem_cons, forall_eq_or_imp]
    exact ⟨by omega, ih⟩

/-- Words that are added as the digits of one number. -/
theorem leNat_modEq (bytes : Bytes) :
    leNat bytes ≡ wordSum bytes [MOD 65535] ∧ (leNat bytes = 0 ↔ wordSum bytes = 0) := by
  fun_induction leWords bytes with
  | case1 => exact ⟨rfl, by simp [leNat]⟩
  | case2 b =>
    exact ⟨by simp [leNat, wordSum, leWords, Nat.ModEq], by simp [leNat, wordSum, leWords]⟩
  | case3 b c bytes ih =>
    simp only [leNat, wordSum_cons_cons]
    unfold Nat.ModEq at *
    omega

theorem leNat_lt (bytes : Bytes) : leNat bytes < 256 ^ bytes.length := by
  induction bytes with
  | nil => simp [leNat]
  | cons b bytes ih =>
    have := b.toNat_lt
    rw [leNat, List.length_cons, pow_succ]
    omega

theorem standsFor_leNat {bytes : Bytes} (h : bytes.length ≤ 8) :
    StandsFor (leNat bytes) (wordSum bytes) := by
  refine ⟨?_, (leNat_modEq bytes).1, (leNat_modEq bytes).2⟩
  calc leNat bytes < 256 ^ bytes.length := leNat_lt bytes
    _ ≤ 256 ^ 8 := Nat.pow_le_pow_right (by decide) h
    _ = 2 ^ 64 := by decide

theorem wordSum_append {bytes : Bytes} (h : 2 ∣ bytes.length) (rest : Bytes) :
    wordSum (bytes ++ rest) = wordSum bytes + wordSum rest := by
  fun_induction leWords bytes with
  | case1 => simp
  | case2 b => simp at h
  | case3 b c bytes ih =>
    rw [List.cons_append, List.cons_append, wordSum_cons_cons, wordSum_cons_cons,
      ih (by simpa [Nat.add_assoc] using h)]
    omega

end CarFi.Library

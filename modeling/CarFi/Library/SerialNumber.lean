import Mathlib.Algebra.Order.Group.Unbundled.Int
import Mathlib.Data.List.MinMax
import Mathlib.Tactic.Ring
import Mathlib.Tactic.Linarith

/-!
# Numbers that wrap around

A position that grows without a bound is sent as its remainder modulo `2 ^ (w + 1)`. If it is
always within `2 ^ w` of the largest position so far, a receiver that only sees the remainders
knows that largest position, as a distance from the first.
-/
namespace CarFi.Library.SerialNumber

/-- The number that is sent for a position. -/
def wrap (w : Nat) (p : ℤ) : Nat := (p % 2 ^ (w + 1)).toNat

/-- How far one number is ahead of another, modulo `2 ^ (w + 1)`. -/
def gap (w a b : Nat) : Nat := (a + 2 ^ (w + 1) - b) % 2 ^ (w + 1)

/-- Every position is within `2 ^ w` of the largest one before it. -/
def Near (w : Nat) (ps : List ℤ) : Prop :=
  ∀ pre p, pre ++ [p] <+: ps → ∀ m ∈ pre.max?, |p - m| < 2 ^ w

variable {w : Nat} {p m : ℤ}

theorem Near.of_isPrefix {ps ps' : List ℤ} (h : Near w ps) (hp : ps' <+: ps) : Near w ps' :=
  fun pre p hpre => h pre p (hpre.trans hp)

theorem near_nil (w : Nat) : Near w [] := by
  intro pre p hpre
  simp at hpre

theorem Near.concat {ps : List ℤ} (h : Near w ps) (hp : ∀ m ∈ ps.max?, |p - m| < 2 ^ w) :
    Near w (ps ++ [p]) := by
  intro pre q hpre
  obtain heq | hpre := List.prefix_concat_iff.mp hpre
  · obtain ⟨rfl, hq⟩ := List.append_inj' heq rfl
    obtain rfl := List.singleton_inj.mp hq
    exact hp
  · exact h pre q hpre

theorem coe_wrap (w : Nat) (p : ℤ) : (wrap w p : ℤ) = p % 2 ^ (w + 1) :=
  Int.toNat_of_nonneg (Int.emod_nonneg _ (by positivity))

theorem wrap_lt (w : Nat) (p : ℤ) : wrap w p < 2 ^ (w + 1) := by
  have h := Int.emod_lt_of_pos p (show (0 : ℤ) < 2 ^ (w + 1) by positivity)
  rw [← coe_wrap] at h
  exact_mod_cast h

theorem gap_wrap (w : Nat) (p m : ℤ) :
    (gap w (wrap w p) (wrap w m) : ℤ) = (p - m) % 2 ^ (w + 1) := by
  have hlt := wrap_lt w m
  have hcast : ((wrap w p + 2 ^ (w + 1) - wrap w m : ℕ) : ℤ) =
      wrap w p - wrap w m + 2 ^ (w + 1) := by
    rw [Nat.cast_sub (by omega)]
    push_cast
    ring
  rw [gap, Int.natCast_emod, hcast, coe_wrap, coe_wrap]
  push_cast
  rw [Int.add_emod_right, ← Int.sub_emod]

/-- A position that is not behind is told by its distance. -/
theorem gap_wrap_of_le (h : m ≤ p) (hn : p - m < 2 ^ w) :
    (gap w (wrap w p) (wrap w m) : ℤ) = p - m := by
  rw [gap_wrap]
  refine Int.emod_eq_of_lt (by linarith) ?_
  rw [pow_succ]
  linarith

/-- A position that is behind looks like one that is far ahead. -/
theorem le_gap_wrap_of_lt (h : p < m) (hn : m - p < 2 ^ w) :
    2 ^ w ≤ gap w (wrap w p) (wrap w m) := by
  have hgap : (gap w (wrap w p) (wrap w m) : ℤ) = p - m + 2 ^ (w + 1) := by
    rw [gap_wrap, ← Int.add_emod_right]
    refine Int.emod_eq_of_lt ?_ (by linarith)
    rw [pow_succ]
    linarith
  have hle : ((2 ^ w : ℕ) : ℤ) ≤ gap w (wrap w p) (wrap w m) := by
    rw [hgap, pow_succ]
    push_cast
    linarith
  exact_mod_cast hle

theorem max?_concat (ps : List ℤ) (p : ℤ) :
    (ps ++ [p]).max? = some (ps.max?.elim p (max · p)) := by
  cases ps with
  | nil => rfl
  | cons q ps =>
    rw [List.cons_append, List.max?_cons', List.max?_cons', List.foldl_append]
    rfl

end CarFi.Library.SerialNumber

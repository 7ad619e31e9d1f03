import Mathlib.Data.List.Basic

/-!
# Probing a list from an index

The two loops that look for an element from an index on, forward and back, as long as the elements
pass a test. Each has one rule, which says where the loop stops: `probeForward_spec` and
`probeBack_spec`.
-/
namespace CarFi.Library

variable {α : Type*} (go hit : α → Bool)

/-- `while i < len(xs) and go(xs[i]): if hit(xs[i]): return i; i += 1`, given the elements from the
index on. -/
def probeForward : List α → Nat → Bool × Nat
  | [], i => (false, i)
  | x :: xs, i => if go x then if hit x then (true, i) else probeForward xs (i + 1) else (false, i)

/-- `while i >= 0 and go(xs[i]): if hit(xs[i]): return i; i -= 1`, with the successors of the
indices. -/
def probeBack (xs : List α) : Nat → Bool × Nat
  | 0 => (false, 0)
  | i + 1 =>
    match xs[i]? with
    | none => (false, i + 1)
    | some x => if go x then if hit x then (true, i + 1) else probeBack xs i else (false, i + 1)

/-- Where a loop over the elements between two indices has got to: it has passed those before. -/
structure Passed (xs : List α) (i j : Nat) : Prop where
  le : i ≤ j
  pass : ∀ k x, i ≤ k → k < j → xs[k]? = some x → go x = true ∧ hit x = false

variable {go hit} {xs : List α} {i : Nat}

theorem Passed.refl : Passed go hit xs i i :=
  ⟨Nat.le_refl i, fun _ _ hik hki _ => absurd hki (Nat.not_lt.mpr hik)⟩

theorem probeForward_spec {r : Bool × Nat} (h : probeForward go hit (xs.drop i) i = r)
    (hi : i ≤ xs.length) :
    Passed go hit xs i r.2 ∧ r.2 ≤ xs.length ∧
      (r.1 = true → ∃ x, xs[r.2]? = some x ∧ go x = true ∧ hit x = true) ∧
      (r.1 = false → ∀ x, xs[r.2]? = some x → go x = false) := by
  subst h
  generalize hys : xs.drop i = ys
  induction ys generalizing i with
  | nil =>
    have hlen : xs.length ≤ i := List.drop_eq_nil_iff.mp hys
    refine ⟨.refl, hi, by simp [probeForward], fun _ x hx => ?_⟩
    rw [probeForward, List.getElem?_eq_none hlen] at hx
    cases hx
  | cons y ys ih =>
    have hy : xs[i]? = some y := by
      rw [← List.head?_drop, hys]
      rfl
    have hsame : ∀ x, xs[i]? = some x → y = x := fun x hx => Option.some.inj (hy.symm.trans hx)
    have hlt : i < xs.length := (List.getElem?_eq_some_iff.mp hy).1
    have hrest : xs.drop (i + 1) = ys := by rw [← List.tail_drop, hys, List.tail_cons]
    obtain ⟨⟨hle, hpass⟩, hlen, htrue, hfalse⟩ := ih (i := i + 1) hlt hrest
    cases hgo : go y with
    | false =>
      have hstop : probeForward go hit (y :: ys) i = (false, i) := by simp [probeForward, hgo]
      rw [hstop]
      refine ⟨.refl, hi, by simp, fun _ x hx => ?_⟩
      rwa [← hsame x hx]
    | true =>
      cases hhit : hit y with
      | true =>
        have hfound : probeForward go hit (y :: ys) i = (true, i) := by
          simp [probeForward, hgo, hhit]
        rw [hfound]
        exact ⟨.refl, hi, fun _ => ⟨y, hy, hgo, hhit⟩, by simp⟩
      | false =>
        have hstep : probeForward go hit (y :: ys) i = probeForward go hit ys (i + 1) := by
          simp [probeForward, hgo, hhit]
        rw [hstep]
        refine ⟨⟨by omega, fun k x hk hkj hx => ?_⟩, hlen, htrue, hfalse⟩
        rcases Nat.eq_or_lt_of_le hk with rfl | hk
        · rw [← hsame x hx]
          exact ⟨hgo, hhit⟩
        · exact hpass k x hk hkj hx

theorem probeBack_spec {r : Bool × Nat} (h : probeBack go hit xs i = r)
    (hi : i ≤ xs.length) :
    Passed go hit xs r.2 i ∧
      (r.1 = true → ∃ x, r.2 ≠ 0 ∧ xs[r.2 - 1]? = some x ∧ go x = true ∧
        hit x = true) ∧
      (r.1 = false → ∀ x, r.2 ≠ 0 → xs[r.2 - 1]? = some x → go x = false) := by
  subst h
  induction i with
  | zero => exact ⟨.refl, by simp [probeBack], by simp [probeBack]⟩
  | succ i ih =>
    have hx : xs[i]? = some xs[i] := List.getElem?_eq_getElem hi
    have hsame : ∀ x, xs[i]? = some x → xs[i] = x :=
      fun x h => Option.some.inj (hx.symm.trans h)
    obtain ⟨⟨hle, hpass⟩, htrue, hfalse⟩ := ih (by omega)
    cases hgo : go xs[i] with
    | false =>
      have hstop : probeBack go hit xs (i + 1) = (false, i + 1) := by simp [probeBack, hx, hgo]
      rw [hstop]
      refine ⟨.refl, by simp, fun _ x _ h => ?_⟩
      rwa [← hsame x h]
    | true =>
      cases hhit : hit xs[i] with
      | true =>
        have hfound : probeBack go hit xs (i + 1) = (true, i + 1) := by
          simp [probeBack, hx, hgo, hhit]
        rw [hfound]
        exact ⟨.refl, fun _ => ⟨xs[i], by simp, hx, hgo, hhit⟩, by simp⟩
      | false =>
        have hstep : probeBack go hit xs (i + 1) = probeBack go hit xs i := by
          simp [probeBack, hx, hgo, hhit]
        rw [hstep]
        refine ⟨⟨by omega, fun k x hk hki hkx => ?_⟩, htrue, hfalse⟩
        rcases Nat.eq_or_lt_of_le (Nat.lt_succ_iff.mp hki) with rfl | hki
        · rw [← hsame x hkx]
          exact ⟨hgo, hhit⟩
        · exact hpass k x hk hki hkx

/-! ## Loops that only skip -/

theorem probeForward_skip (hi : i ≤ xs.length) :
    ∃ j, (probeForward go (fun _ => false) (xs.drop i) i).2 = j ∧ i ≤ j ∧
      j ≤ xs.length ∧ (∀ k x, i ≤ k → k < j → xs[k]? = some x → go x = true) ∧
      ∀ x, xs[j]? = some x → go x = false := by
  obtain ⟨⟨hle, hpass⟩, hlen, htrue, hfalse⟩ :=
    probeForward_spec (rfl : probeForward go (fun _ => false) (xs.drop i) i = _) hi
  refine ⟨_, rfl, hle, hlen, fun k x hk hkj hx => (hpass k x hk hkj hx).1, ?_⟩
  cases hfound : (probeForward go (fun _ => false) (xs.drop i) i).1 with
  | false => exact hfalse hfound
  | true =>
    obtain ⟨x, -, -, hx⟩ := htrue hfound
    cases hx

theorem probeBack_skip (hi : i ≤ xs.length) :
    ∃ j, (probeBack go (fun _ => false) xs i).2 = j ∧ j ≤ i ∧
      (∀ k x, j ≤ k → k < i → xs[k]? = some x → go x = true) ∧
      ∀ x, j ≠ 0 → xs[j - 1]? = some x → go x = false := by
  obtain ⟨⟨hle, hpass⟩, htrue, hfalse⟩ :=
    probeBack_spec (rfl : probeBack go (fun _ => false) xs i = _) hi
  refine ⟨_, rfl, hle, fun k x hk hkj hx => (hpass k x hk hkj hx).1, ?_⟩
  cases hfound : (probeBack go (fun _ => false) xs i).1 with
  | false => exact hfalse hfound
  | true =>
    obtain ⟨x, -, -, -, hx⟩ := htrue hfound
    cases hx

end CarFi.Library

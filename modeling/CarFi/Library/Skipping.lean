import CarFi.Library.Stream

/-!
# Folds with elements that should not matter

A fold that may fail reads a list of which only some elements count; which ones do is decided
from left to right by a small state of its own. `Skips.toOption_foldlM_iff` compares the fold of
the whole list with the fold of the elements that count.
-/
namespace CarFi.Library

universe u

variable {α κ ε β : Type*} {σ : Type u}

/-- The elements that count; `next` moves the state that decides it. -/
def kept (own : κ → α → Bool) (next : κ → α → κ) : κ → List α → List α
  | _, [] => []
  | k, a :: as =>
    if own k a then a :: kept own next (next k a) as else kept own next (next k a) as

/-- The elements that do not count. -/
def leftOut (own : κ → α → Bool) (next : κ → α → κ) (k : κ) (as : List α) :
    List α :=
  kept (fun k a => !own k a) next k as

/-- The relation `R` between the run over all elements and the run over those that count. An
element that counts moves both or fails in both. An element that does not count moves the first
run or makes it fail; a relation to the second run can be restored in either case. -/
structure Skips (f : σ → α → Except ε σ) (own : κ → α → Bool)
    (next : κ → α → κ) (readable harmless : α → Prop) (R : κ → σ → σ → Prop) :
    Prop where
  step : ∀ {k s t a}, R k s t → own k a = true → readable a →
    ∃ s' t', f s a = .ok s' ∧ f t a = .ok t' ∧ R (next k a) s' t'
  fail : ∀ {k s t a}, R k s t → own k a = true → ¬readable a →
    ∃ e e', f s a = .error e ∧ f t a = .error e'
  skip : ∀ {k s t a}, R k s t → own k a = false → harmless a →
    ∃ s', f s a = .ok s' ∧ R (next k a) s' t
  raise : ∀ {k s t a}, R k s t → own k a = false → ¬harmless a →
    ∃ e s', f s a = .error e ∧ R (next k a) s' t

theorem foldlM_cons_of_ok {f : σ → α → Except ε σ} {s t : σ} {a : α} {as : List α}
    (h : f s a = .ok t) : (a :: as).foldlM f s = as.foldlM f t := by
  rw [List.foldlM_cons, h]
  rfl

theorem foldlM_cons_of_error {f : σ → α → Except ε σ} {s : σ} {e : ε} {a : α}
    {as : List α} (h : f s a = .error e) : (a :: as).foldlM f s = .error e := by
  rw [List.foldlM_cons, h]
  rfl

section Skips

variable {f : σ → α → Except ε σ} {own : κ → α → Bool} {next : κ → α → κ}
  {readable harmless : α → Prop} {R : κ → σ → σ → Prop}

/-- The run over the elements that count fails at the first one that is not readable. -/
theorem Skips.toOption_kept_eq_none_iff (h : Skips f own next readable harmless R) {k : κ}
    {s t : σ} (hR : R k s t) (as : List α) :
    ((kept own next k as).foldlM f t).toOption = none ↔
      ∃ a ∈ kept own next k as, ¬readable a := by
  induction as generalizing k s t with
  | nil => simp [kept, pure, Except.pure, Except.toOption]
  | cons a as ih =>
    cases hown : own k a with
    | false =>
      obtain ⟨s', hR'⟩ : ∃ s', R (next k a) s' t := by
        by_cases hharm : harmless a
        · obtain ⟨s', -, hR'⟩ := h.skip hR hown hharm
          exact ⟨s', hR'⟩
        · obtain ⟨-, s', -, hR'⟩ := h.raise hR hown hharm
          exact ⟨s', hR'⟩
      simpa [kept, hown] using ih hR'
    | true =>
      by_cases hread : readable a
      · obtain ⟨s', t', -, ht, hR'⟩ := h.step hR hown hread
        simp only [kept, hown, if_true, foldlM_cons_of_ok ht, ih hR', List.mem_cons,
          exists_eq_or_imp, hread, not_true, false_or]
      · obtain ⟨-, e, -, ht⟩ := h.fail hR hown hread
        simp [kept, hown, foldlM_cons_of_error ht, hread, Except.toOption]

/-- Both runs give the same result, or both fail, if no element that does not count does harm, or
if one that counts makes both fail. -/
theorem Skips.toOption_foldlM_iff (h : Skips f own next readable harmless R) (out : σ → β)
    (hout : ∀ {k s t}, R k s t → out s = out t) {k : κ} {s t : σ} (hR : R k s t)
    (as : List α) : (as.foldlM f s).toOption.map out =
      ((kept own next k as).foldlM f t).toOption.map out ↔
        (∀ a ∈ leftOut own next k as, harmless a) ∨
        ∃ a ∈ kept own next k as, ¬readable a := by
  induction as generalizing k s t with
  | nil => simp [kept, leftOut, pure, Except.pure, Except.toOption, hout hR]
  | cons a as ih =>
    cases hown : own k a with
    | true =>
      by_cases hread : readable a
      · obtain ⟨s', t', hs, ht, hR'⟩ := h.step hR hown hread
        simpa [kept, leftOut, hown, foldlM_cons_of_ok hs, foldlM_cons_of_ok ht, hread] using ih hR'
      · obtain ⟨e, e', hs, ht⟩ := h.fail hR hown hread
        simp [kept, hown, foldlM_cons_of_error hs, foldlM_cons_of_error ht, hread, Except.toOption]
    | false =>
      by_cases hharm : harmless a
      · obtain ⟨s', hs, hR'⟩ := h.skip hR hown hharm
        simpa [kept, leftOut, hown, foldlM_cons_of_ok hs, hharm] using ih hR'
      · obtain ⟨e, s', hs, hR'⟩ := h.raise hR hown hharm
        have hnone := h.toOption_kept_eq_none_iff hR' as
        simp only [kept, leftOut, hown, foldlM_cons_of_error hs, Bool.not_false, if_true,
          Bool.false_eq_true, if_false, List.forall_mem_cons, hharm, false_and, false_or, ← hnone]
        change none = _ ↔ _
        rw [eq_comm, Option.map_eq_none_iff]

end Skips

end CarFi.Library

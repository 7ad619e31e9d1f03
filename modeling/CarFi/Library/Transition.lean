import Mathlib.Order.Basic

/-!
# Labelled runs of a step relation

A system is given by a relation `step s e t`: from state `s` the event `e` can lead to `t`.
A run is labelled by the list of its events, so that conditions on the inputs of a run can
be stated on the label list and conditions on the state before a step on the relation.

The rules below are the only inductions over runs that the developments built on top of this file
need: preservation of an invariant, a run that is computed, a bound on the length of every run from
a rank that each step decreases, and the existence of a run that cannot be continued or that comes
to a goal.
-/
namespace CarFi.Library

variable {σ ε : Type*} {step : σ → ε → σ → Prop}

/-- `Run step s es t`: the events `es`, taken in this order, lead from `s` to `t`. -/
inductive Run (step : σ → ε → σ → Prop) : σ → List ε → σ → Prop where
  | nil (s : σ) : Run step s [] s
  | cons {s t u : σ} {e : ε} {es : List ε} :
      step s e t → Run step t es u → Run step s (e :: es) u

/-- The steps of `step` that meet the condition `ok` on the state before and the event. -/
def Guarded (ok : σ → ε → Prop) (step : σ → ε → σ → Prop) (s : σ) (e : ε)
    (t : σ) : Prop :=
  ok s e ∧ step s e t

/-- The steps of `step` beside a history variable, which `upd` brings up to date. -/
def Watched {κ : Type*} (upd : σ → ε → σ → κ → κ) (step : σ → ε → σ → Prop)
    (p : σ × κ) (e : ε) (q : σ × κ) : Prop :=
  step p.1 e q.1 ∧ q.2 = upd p.1 e q.1 p.2

/-- No event can be taken. -/
def Stuck (step : σ → ε → σ → Prop) (s : σ) : Prop := ∀ e t, ¬ step s e t

namespace Run

theorem single {s t : σ} {e : ε} (h : step s e t) : Run step s [e] t := .cons h (.nil t)

theorem trans {s t u : σ} {es fs : List ε} (h : Run step s es t) (g : Run step t fs u) :
    Run step s (es ++ fs) u := by
  induction h with
  | nil _ => exact g
  | cons hs _ ih => exact .cons hs (ih g)

theorem mono {step' : σ → ε → σ → Prop} (hsub : ∀ s e t, step s e t → step' s e t)
    {s t : σ} {es : List ε} (h : Run step s es t) : Run step' s es t := by
  induction h with
  | nil s => exact .nil s
  | cons hs _ ih => exact .cons (hsub _ _ _ hs) ih

theorem of_guarded {ok : σ → ε → Prop} {s t : σ} {es : List ε}
    (h : Run (Guarded ok step) s es t) : Run step s es t :=
  h.mono fun _ _ _ hs => hs.2

/-- What holds at the start and is kept by every step holds at the end of every run. -/
theorem invariant {I : σ → Prop} (hstep : ∀ s e t, I s → step s e t → I t)
    {s t : σ} {es : List ε} (h : Run step s es t) (h0 : I s) : I t := by
  induction h with
  | nil _ => exact h0
  | cons hs _ ih => exact ih (hstep _ _ _ h0 hs)

/-- A relation between the events taken so far and the state, kept by every step. -/
theorem invariant_trace {I : List ε → σ → Prop}
    (hstep : ∀ es s e t, I es s → step s e t → I (es ++ [e]) t)
    {s t : σ} {past es : List ε} (h : Run step s es t) (h0 : I past s) : I (past ++ es) t := by
  induction h generalizing past with
  | nil _ => simpa using h0
  | cons hs _ ih => simpa using ih (hstep _ _ _ _ h0 hs)

/-- Steps that are computed one after the other make a run. -/
theorem of_foldlM {f : σ → ε → Option σ} (hf : ∀ s e t, f s e = some t → step s e t)
    {s t : σ} {es : List ε} (h : es.foldlM f s = some t) : Run step s es t := by
  induction es generalizing s with
  | nil =>
    cases h
    exact .nil _
  | cons e es ih =>
    rw [List.foldlM_cons] at h
    obtain ⟨u, hu, ht⟩ := Option.bind_eq_some_iff.mp h
    exact .cons (hf _ _ _ hu) (ih ht)

/-- A rank that every step decreases bounds the length of every run. -/
theorem length_le {I : Nat → σ → Prop}
    (hdec : ∀ n s e t, I n s → step s e t → ∃ m < n, I m t)
    {s t : σ} {es : List ε} (h : Run step s es t) {n : Nat} (h0 : I n s) : es.length ≤ n := by
  induction h generalizing n with
  | nil _ => simp
  | cons hs _ ih =>
    obtain ⟨m, hm, hI⟩ := hdec _ _ _ _ h0 hs
    have := ih hI
    simp only [List.length_cons]
    omega

/-- If every state short of `P` has a step that decreases a rank, a run leads to `P`. -/
theorem exists_of_rank {I : Nat → σ → Prop} {P : σ → Prop}
    (hdec : ∀ n s, I n s → ¬ P s → ∃ m e t, m < n ∧ step s e t ∧ I m t)
    {n : Nat} {s : σ} (h0 : I n s) : ∃ es t, Run step s es t ∧ P t := by
  induction n using Nat.strongRecOn generalizing s with
  | ind n ih =>
    by_cases hs : P s
    · exact ⟨[], s, .nil s, hs⟩
    · obtain ⟨m, e, t, hm, hstep, hI⟩ := hdec n s h0 hs
      obtain ⟨es, u, hrun, hu⟩ := ih m hm hI
      exact ⟨e :: es, u, .cons hstep hrun, hu⟩

/-- A run that leaves `P` does so at some step. -/
theorem exists_leaving {P : σ → Prop} {s t : σ} {es : List ε} (h : Run step s es t) (hs : P s)
    (ht : ¬ P t) : ∃ es' u e v, Run step s es' u ∧ P u ∧ step u e v ∧ ¬ P v := by
  induction h with
  | nil s => exact absurd hs ht
  | @cons s u t e es hstep _ ih =>
    by_cases hu : P u
    · obtain ⟨es', v, e', w, hrun, hv, hvw, hw⟩ := ih hu ht
      exact ⟨e :: es', v, e', w, .cons hstep hrun, hv, hvw, hw⟩
    · exact ⟨[], s, e, u, .nil s, hs, hstep, hu⟩

/-- If the runs are bounded, one of them cannot be continued. -/
theorem exists_stuck {s : σ} {n : Nat} (hn : ∀ es t, Run step s es t → es.length ≤ n) :
    ∃ es t, Run step s es t ∧ Stuck step t := by
  by_contra hnone
  have hlong : ∀ k, ∃ es t, Run step s es t ∧ es.length = k := by
    intro k
    induction k with
    | zero => exact ⟨[], s, .nil s, rfl⟩
    | succ k ih =>
      obtain ⟨es, t, hrun, hk⟩ := ih
      obtain ⟨e, u, hstep⟩ : ∃ e u, step t e u := by
        by_contra hstuck
        exact hnone ⟨es, t, hrun, fun e u h => hstuck ⟨e, u, h⟩⟩
      exact ⟨es ++ [e], u, hrun.trans (.single hstep), by simp [hk]⟩
  obtain ⟨es, t, hrun, hk⟩ := hlong (n + 1)
  have := hn es t hrun
  omega

end Run

/-- Some run leads to a state with `P`. -/
def Reaches (step : σ → ε → σ → Prop) (s : σ) (P : σ → Prop) : Prop :=
  ∃ es t, Run step s es t ∧ P t

theorem Reaches.head {s t : σ} {e : ε} {P : σ → Prop} (h : step s e t)
    (ht : Reaches step t P) : Reaches step s P := by
  obtain ⟨es, u, hrun, hu⟩ := ht
  exact ⟨e :: es, u, .cons h hrun, hu⟩

end CarFi.Library

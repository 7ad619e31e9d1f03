import Mathlib.Data.List.Induction
import Mathlib.Order.Monotone.Basic
import Mathlib.Order.RelClasses

/-!
# Programs driven by the results of their calls

A program makes one call after the other, and the result of a call takes it to the next one. Given
the results of all calls, it is a sequence of states. `Machine.ends_or_idles` is the rule for its
end: with a measure that every call decreases or, if it is idle, leaves as it is, the program ends
or is idle from some call on.
-/
namespace CarFi.Library

structure Machine (σ ο ρ : Type*) where
  start : σ
  op : σ → Option ο
  resume : σ → ρ → σ

namespace Machine

variable {σ ο ρ β : Type*} (M : Machine σ ο ρ) (res : ℕ → ρ)

/-- The state before the call number `i`. -/
def state : ℕ → σ
  | 0 => M.start
  | i + 1 => M.resume (state i) (res i)

/-- At some point the program makes no more calls. -/
def Ends : Prop := ∃ i, M.op (M.state res i) = none

variable {M res}

/-- A program that has ended makes no more calls. -/
theorem op_eq_none_of_le (hdone : ∀ s r, M.op s = none → M.op (M.resume s r) = none) {i j : ℕ}
    (h : M.op (M.state res i) = none) (hij : i ≤ j) : M.op (M.state res j) = none := by
  induction j, hij using Nat.le_induction with
  | base => exact h
  | succ j _ ih => exact hdone _ _ ih

theorem ends_or_idles [Preorder β] [WellFoundedLT β] (μ : σ → β) (idle : ο → ρ → Prop)
    (h : ∀ i o, M.op (M.state res i) = some o →
      idle o (res i) ∧ μ (M.state res (i + 1)) ≤ μ (M.state res i) ∨
        μ (M.state res (i + 1)) < μ (M.state res i)) :
    M.Ends res ∨ ∃ i, ∀ j ≥ i, ∃ o, M.op (M.state res j) = some o ∧ idle o (res j) := by
  by_contra hnot
  obtain ⟨hgoes, hbusy⟩ := not_or.mp hnot
  have hop : ∀ i, ∃ o, M.op (M.state res i) = some o := fun i =>
    Option.ne_none_iff_exists'.mp fun hnone => hgoes ⟨i, hnone⟩
  have hanti : Antitone fun i => μ (M.state res i) := by
    refine antitone_nat_of_succ_le fun i => ?_
    obtain ⟨o, ho⟩ := hop i
    rcases h i o ho with ⟨-, hle⟩ | hlt
    · exact hle
    · exact hlt.le
  -- after every call there is one that decreases the measure
  have hdec : ∀ i, ∃ j, μ (M.state res j) < μ (M.state res i) := by
    intro i
    by_contra hmin
    refine hbusy ⟨i, fun j hj => ?_⟩
    obtain ⟨o, ho⟩ := hop j
    rcases h j o ho with ⟨hidle, -⟩ | hlt
    · exact ⟨o, ho, hidle⟩
    · exact absurd ⟨j + 1, hlt.trans_le (hanti hj)⟩ hmin
  have hnone : ∀ b i, μ (M.state res i) ≠ b := by
    intro b
    induction b using WellFoundedLT.induction with
    | ind b ih =>
      rintro i rfl
      obtain ⟨j, hj⟩ := hdec i
      exact ih _ hj j rfl
  exact hnone _ 0 rfl

/-- A program ends if every call decreases a measure. -/
theorem ends_of_lt [Preorder β] [WellFoundedLT β] (μ : σ → β)
    (h : ∀ i o, M.op (M.state res i) = some o →
      μ (M.state res (i + 1)) < μ (M.state res i)) : M.Ends res := by
  obtain hends | ⟨i, hidle⟩ := ends_or_idles μ (fun _ _ => False) fun i o ho => .inr (h i o ho)
  · exact hends
  · obtain ⟨-, -, hfalse⟩ := hidle i (Nat.le_refl i)
    exact hfalse.elim

/-! ## Given results -/

/-- The results `l`, and then the result `d` for ever. -/
def answers (l : List ρ) (d : ρ) (i : ℕ) : ρ := l[i]?.getD d

@[simp]
theorem answers_length (l l' : List ρ) (r d : ρ) : answers (l ++ r :: l') d l.length = r := by
  simp [answers]

theorem answers_mem (l : List ρ) (d : ρ) (i : ℕ) :
    answers l d i ∈ l ∨ answers l d i = d := by
  unfold answers
  cases h : l[i]? with
  | none => exact .inr rfl
  | some r => exact .inl (List.mem_of_getElem? h)

/-- Every result of `l` meets `Q` for the call that it answers. -/
def Answered (M : Machine σ ο ρ) (Q : ο → ρ → Prop) : σ → List ρ → Prop
  | _, [] => True
  | s, r :: l => (∀ o, M.op s = some o → Q o r) ∧ Answered M Q (M.resume s r) l

theorem state_answers (l l' : List ρ) (d : ρ) :
    M.state (answers (l ++ l') d) l.length = l.foldl M.resume M.start := by
  induction l using List.reverseRecOn generalizing l' with
  | nil => rfl
  | append_singleton l r ih =>
    rw [List.append_assoc, List.singleton_append, List.length_append, List.length_singleton, state,
      answers_length, ih, List.foldl_append]
    rfl

theorem Answered.append {Q : ο → ρ → Prop} {s : σ} {l l' : List ρ} (h : Answered M Q s l)
    (h' : Answered M Q (l.foldl M.resume s) l') : Answered M Q s (l ++ l') := by
  induction l generalizing s with
  | nil => exact h'
  | cons r l ih => exact ⟨h.1, ih h.2 h'⟩

/-- The results `l` meet `Q` and take the program from `s` to `s'`. -/
structure Leads (M : Machine σ ο ρ) (Q : ο → ρ → Prop) (s : σ) (l : List ρ) (s' : σ) :
    Prop where
  reaches : l.foldl M.resume s = s'
  answered : Answered M Q s l

theorem Leads.nil {Q : ο → ρ → Prop} {s : σ} : M.Leads Q s [] s := ⟨rfl, trivial⟩

theorem Leads.cons {Q : ο → ρ → Prop} {s t s' : σ} {o : ο} {r : ρ} {l : List ρ}
    (ho : M.op s = some o) (hq : Q o r) (hr : M.resume s r = t) (h : M.Leads Q t l s') :
    M.Leads Q s (r :: l) s' := by
  subst hr
  refine ⟨h.reaches, fun o' ho' => ?_, h.answered⟩
  obtain rfl : o = o' := Option.some.inj (ho.symm.trans ho')
  exact hq

theorem Leads.append {Q : ο → ρ → Prop} {s t s' : σ} {l l' : List ρ} (h : M.Leads Q s l t)
    (h' : M.Leads Q t l' s') : M.Leads Q s (l ++ l') s' := by
  obtain ⟨rfl, ha⟩ := h
  exact ⟨by rw [List.foldl_append, h'.reaches], ha.append h'.answered⟩

theorem Answered.getElem {Q : ο → ρ → Prop} {s : σ} {l l' : List ρ} {r : ρ}
    (h : Answered M Q s (l ++ r :: l')) {o : ο} (ho : M.op (l.foldl M.resume s) = some o) :
    Q o r := by
  induction l generalizing s with
  | nil => exact h.1 o ho
  | cons a l ih => exact ih h.2 ho

theorem Answered.all {Q : ο → ρ → Prop} {l : List ρ} {d : ρ} (h : Answered M Q M.start l)
    (hd : ∀ o, Q o d) (i : ℕ) (o : ο) (ho : M.op (M.state (answers l d) i) = some o) :
    Q o (answers l d i) := by
  by_cases hi : i < l.length
  · have hsplit : l = l.take i ++ l[i] :: l.drop (i + 1) := by
      rw [← List.drop_eq_getElem_cons hi, List.take_append_drop]
    have hres : answers l d i = l[i] := by simp [answers, hi]
    rw [hres]
    have hstate := state_answers (M := M) (l.take i) (l[i] :: l.drop (i + 1)) d
    rw [← hsplit, List.length_take_of_le hi.le] at hstate
    rw [hstate] at ho
    rw [hsplit] at h
    exact h.getElem ho
  · have hres : answers l d i = d := by simp [answers, List.getElem?_eq_none (not_lt.mp hi)]
    rw [hres]
    exact hd o

end Machine

end CarFi.Library

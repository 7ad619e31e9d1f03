import Mathlib.Data.List.Sort

/-!
# Sorting by a key

`sorted(l, key=...)` and `ORDER BY`: a stable sort, in which elements with the same key keep their
order.
-/
namespace CarFi.Library

variable {α κ : Type*} [LinearOrder κ] (key : α → κ)

def sortBy (l : List α) : List α := l.insertionSort fun a b => key a ≤ key b

theorem sortBy_perm (l : List α) : (sortBy key l).Perm l := List.perm_insertionSort _ l

theorem sortBy_pairwise (l : List α) : (sortBy key l).Pairwise fun a b => key a ≤ key b := by
  have : Std.Total fun a b : α => key a ≤ key b := ⟨fun a b => le_total (key a) (key b)⟩
  have : IsTrans α fun a b => key a ≤ key b := ⟨fun _ _ _ => le_trans⟩
  exact List.pairwise_insertionSort _ l

/-- An element whose key is below none of the others stays the last one. -/
theorem sortBy_concat {l : List α} {x : α} (h : ∀ a ∈ l, key a ≤ key x) :
    sortBy key (l ++ [x]) = sortBy key l ++ [x] := by
  have hinsert : ∀ (a : α) (l : List α), key a ≤ key x →
      (l ++ [x]).orderedInsert (fun a b => key a ≤ key b) a =
        l.orderedInsert (fun a b => key a ≤ key b) a ++ [x] := by
    intro a l ha
    induction l with
    | nil => simp [ha]
    | cons b l ih =>
      by_cases hab : key a ≤ key b
      · simp [hab]
      · simpa [hab] using ih
  induction l with
  | nil => rfl
  | cons a l ih =>
    obtain ⟨ha, hl⟩ := List.forall_mem_cons.mp h
    have ih := ih hl
    simp only [sortBy, List.cons_append, List.insertionSort_cons] at ih ⊢
    rw [ih, hinsert a _ ha]

/-- The first and the last element have the least and the greatest key. -/
theorem key_le_of_sortBy {l : List α} {a : α} (ha : a ∈ l) :
    (∀ first ∈ (sortBy key l).head?, key first ≤ key a) ∧
      ∀ last ∈ (sortBy key l).getLast?, key a ≤ key last := by
  have hsorted := sortBy_pairwise key l
  have ha := (sortBy_perm key l).mem_iff.mpr ha
  constructor
  · intro first hfirst
    obtain ⟨rest, hrest⟩ := List.head?_eq_some_iff.mp hfirst
    rw [hrest] at ha hsorted
    rcases List.mem_cons.mp ha with rfl | ha
    · exact le_refl _
    · exact (List.pairwise_cons.mp hsorted).1 a ha
  · intro last hlast
    obtain ⟨init, hinit⟩ := List.getLast?_eq_some_iff.mp hlast
    rw [hinit] at ha hsorted
    rcases List.mem_append.mp ha with ha | ha
    · exact (List.pairwise_append.mp hsorted).2.2 a ha last (by simp)
    · rw [List.mem_singleton.mp ha]

end CarFi.Library

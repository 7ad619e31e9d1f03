import Mathlib.Data.List.Perm.Basic

/-!
# Rows selected by several queries

A loop that runs one query per key over the same table sees a row once for each key that selects it.
-/
namespace CarFi.Library

variable {α β κ : Type*}

/-- The answer to a query, row by row. -/
theorem map_filter_eq_flatMap (f : α → β) (p : α → Bool) (rows : List α) :
    (rows.filter p).map f = rows.flatMap fun a => if p a then [f a] else [] := by
  induction rows with
  | nil => rfl
  | cons a rows ih => by_cases h : p a = true <;> simp [h, ih]

/-- Over all queries, each row is selected as often as there are keys that select it. -/
theorem flatMap_filter_perm (f : α → β) (p : κ → α → Bool) (keys : List κ)
    (rows : List α) : (keys.flatMap fun k => (rows.filter (p k)).map f).Perm
      (rows.flatMap fun a => List.replicate (keys.countP (p · a)) (f a)) := by
  induction keys with
  | nil => simp
  | cons k keys ih =>
    have hcons (a : α) : List.replicate ((k :: keys).countP (p · a)) (f a) =
        (if p k a then [f a] else []) ++ List.replicate (keys.countP (p · a)) (f a) := by
      by_cases h : p k a = true
      · simp [h, List.replicate_succ]
      · simp [h]
    simp only [hcons, List.flatMap_cons]
    rw [map_filter_eq_flatMap]
    exact (ih.append_left _).trans (List.flatMap_append_perm rows _ _)

/-- A table that has each row `n` times as often as it is selected, after all queries once more. -/
theorem perm_append_replicate_succ {rows : List α} {result output added : List β} (f : α → β)
    (count : α → ℕ) (n : ℕ)
    (h : result.Perm (output ++ rows.flatMap fun x => List.replicate (n * count x) (f x)))
    (hadded : added.Perm (rows.flatMap fun x => List.replicate (count x) (f x))) :
    (result ++ added).Perm
      (output ++ rows.flatMap fun x => List.replicate ((n + 1) * count x) (f x)) := by
  have hsplit : (rows.flatMap fun x => List.replicate ((n + 1) * count x) (f x)).Perm
      ((rows.flatMap fun x => List.replicate (n * count x) (f x)) ++
        rows.flatMap fun x => List.replicate (count x) (f x)) := by
    simp only [Nat.succ_mul, List.replicate_add]
    exact (List.flatMap_append_perm rows _ _).symm
  refine (h.append hadded).trans ?_
  rw [List.append_assoc]
  exact hsplit.symm.append_left output

end CarFi.Library

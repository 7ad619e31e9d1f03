import Mathlib.Data.List.TakeWhile
import Mathlib.Data.List.Infix

/-!
# Fields of a text

The runs of characters between separators, without empty ones: what `str.split()` gives in Python,
and the words of a command line that has nothing but words and blanks.
-/
namespace CarFi.Library

variable {α : Type*} (p : α → Bool)

def closeField (cur : List α) : List (List α) := if cur.isEmpty then [] else [cur]

/-- The fields of a text of which `cur` was read since the last separator. -/
def fieldsFrom : List α → List α → List (List α)
  | cur, [] => closeField cur
  | cur, x :: xs =>
    if p x then closeField cur ++ fieldsFrom [] xs else fieldsFrom (cur ++ [x]) xs

def fields (xs : List α) : List (List α) := fieldsFrom p [] xs

@[simp] theorem closeField_nil : closeField ([] : List α) = [] := rfl

theorem closeField_of_ne {cur : List α} (h : cur ≠ []) : closeField cur = [cur] := by
  cases cur with
  | nil => exact absurd rfl h
  | cons x xs => rfl

variable {p}

@[simp] theorem fields_nil : fields p ([] : List α) = [] := rfl

theorem fieldsFrom_append {cur xs ys : List α} {x : α} (hx : p x = true) :
    fieldsFrom p cur (xs ++ x :: ys) = fieldsFrom p cur xs ++ fields p ys := by
  induction xs generalizing cur with
  | nil => simp [fieldsFrom, hx, fields]
  | cons y xs ih =>
    simp only [List.cons_append, fieldsFrom]
    split
    · rw [ih, List.append_assoc]
    · exact ih

/-- A separator cuts a text in two. -/
theorem fields_append {xs ys : List α} {x : α} (hx : p x = true) :
    fields p (xs ++ x :: ys) = fields p xs ++ fields p ys :=
  fieldsFrom_append hx

theorem fieldsFrom_run {cur w : List α} (hw : ∀ x ∈ w, p x = false) :
    fieldsFrom p cur w = closeField (cur ++ w) := by
  induction w generalizing cur with
  | nil => simp [fieldsFrom]
  | cons x w ih =>
    rw [fieldsFrom, hw x (by simp), if_neg Bool.false_ne_true, ih fun y hy => hw y (by simp [hy])]
    simp

theorem fields_run {w : List α} (hne : w ≠ []) (hw : ∀ x ∈ w, p x = false) :
    fields p w = [w] := by
  rw [fields, fieldsFrom_run hw, List.nil_append, closeField_of_ne hne]

theorem fields_cons {xs : List α} {x : α} (hx : p x = true) :
    fields p (x :: xs) = fields p xs := by
  have h : fields p ([] ++ x :: xs) = fields p [] ++ fields p xs := fields_append hx
  simpa using h

theorem fields_separators {xs : List α} (h : ∀ x ∈ xs, p x = true) : fields p xs = [] := by
  induction xs with
  | nil => rfl
  | cons x xs ih => rw [fields_cons (h x (by simp)), ih fun y hy => h y (by simp [hy])]

/-- A text that does not start with a separator starts with its first field. -/
theorem fields_of_head (xs : List α) {x : α} (hx : p x = false) :
    ∃ w rest, x :: xs = w ++ rest ∧ w ≠ [] ∧ (∀ y ∈ w, p y = false) ∧
      (∀ y ∈ rest.head?, p y = true) ∧ fields p (x :: xs) = w :: fields p rest := by
  let w := (x :: xs).takeWhile fun y => !p y
  let rest := (x :: xs).dropWhile fun y => !p y
  have hsplit : x :: xs = w ++ rest := (List.takeWhile_append_dropWhile ..).symm
  have hw : ∀ y ∈ w, p y = false := fun y hy => by
    simpa using List.mem_takeWhile_imp hy
  have hne : w ≠ [] := by simp [w, hx]
  have hhead : ∀ y ∈ rest.head?, p y = true := fun y hy => by
    have hdrop := List.head?_dropWhile_not (fun y => !p y) (x :: xs)
    rw [Option.mem_def] at hy
    rw [show (x :: xs).dropWhile (fun y => !p y) = rest from rfl, hy] at hdrop
    simpa using hdrop
  refine ⟨w, rest, hsplit, hne, hw, hhead, ?_⟩
  rw [hsplit]
  cases hrest : rest with
  | nil => simp [fields_run hne hw]
  | cons y ys =>
    have hy : p y = true := hhead y (by simp [hrest])
    rw [fields_append hy, fields_run hne hw, fields_cons hy]
    rfl

theorem forall_of_fields_eq_nil {xs : List α} (h : fields p xs = []) :
    ∀ x ∈ xs, p x = true := by
  induction xs with
  | nil => simp
  | cons x xs ih =>
    cases hx : p x with
    | true =>
      rw [fields_cons hx] at h
      simpa [hx] using ih h
    | false =>
      obtain ⟨w, rest, -, -, -, -, hfields⟩ := fields_of_head xs hx
      rw [hfields] at h
      cases h

/-- A text with one field is that field between separators. -/
theorem fields_eq_singleton {xs w : List α} (h : fields p xs = [w]) :
    ∃ before after, xs = before ++ (w ++ after) ∧ (∀ x ∈ before, p x = true) ∧
      (∀ x ∈ after, p x = true) ∧ w ≠ [] ∧ ∀ x ∈ w, p x = false := by
  induction xs with
  | nil => cases h
  | cons x xs ih =>
    cases hx : p x with
    | true =>
      rw [fields_cons hx] at h
      obtain ⟨before, after, rfl, hbefore, hafter, hw⟩ := ih h
      exact ⟨x :: before, after, rfl, by simpa [hx] using hbefore, hafter, hw⟩
    | false =>
      obtain ⟨v, rest, hsplit, hne, hv, -, hfields⟩ := fields_of_head xs hx
      rw [hfields, List.cons.injEq] at h
      obtain ⟨rfl, hrest⟩ := h
      exact ⟨[], rest, hsplit, by simp, forall_of_fields_eq_nil hrest, hne, hv⟩

/-- No field is empty, and none has a separator in it. -/
theorem of_mem_fieldsFrom {cur xs w : List α} (hcur : ∀ x ∈ cur, p x = false)
    (h : w ∈ fieldsFrom p cur xs) : w ≠ [] ∧ ∀ x ∈ w, p x = false := by
  have hclose : ∀ cur : List α, (∀ x ∈ cur, p x = false) → w ∈ closeField cur →
      w ≠ [] ∧ ∀ x ∈ w, p x = false := by
    intro cur hcur hw
    cases cur with
    | nil => cases hw
    | cons x cur =>
      obtain rfl := List.mem_singleton.mp hw
      exact ⟨List.cons_ne_nil _ _, hcur⟩
  induction xs generalizing cur with
  | nil => exact hclose cur hcur h
  | cons x xs ih =>
    rw [fieldsFrom] at h
    split at h
    · rcases List.mem_append.mp h with h | h
      · exact hclose cur hcur h
      · exact ih (by simp) h
    · rename_i hx
      refine ih (fun y hy => ?_) h
      rcases List.mem_append.mp hy with hy | hy
      · exact hcur y hy
      · rw [List.mem_singleton.mp hy]
        simpa using hx

theorem of_mem_fields {xs w : List α} (h : w ∈ fields p xs) :
    w ≠ [] ∧ ∀ x ∈ w, p x = false :=
  of_mem_fieldsFrom (by simp) h

end CarFi.Library

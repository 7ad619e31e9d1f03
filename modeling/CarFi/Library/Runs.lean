import Mathlib.Data.List.Induction
import Mathlib.Data.List.SplitBy

/-!
# Maximal runs of a list

`List.splitBy` cuts a list into its maximal runs of related neighbours. A loop that goes through the
list from the left knows only the ends of its last run: an element either becomes the last one of it
or opens the next run.
-/
namespace CarFi.Library

variable {α : Type*} {r : α → α → Bool}

/-- An element that is not related to the last one opens a run. -/
theorem splitBy_concat_fresh {l : List α} {a : α} (h : ∀ b ∈ l.getLast?, r b a = false) :
    (l ++ [a]).splitBy r = l.splitBy r ++ [[a]] :=
  List.splitBy_append fun b hb c hc => by
    rw [List.head?_singleton, Option.mem_some_iff] at hc
    exact hc ▸ h b hb

/-- The last run ends with the last element. -/
theorem splitBy_concat_eq (r : α → α → Bool) (l : List α) (b : α) :
    ∃ gs g, (l ++ [b]).splitBy r = gs ++ [g ++ [b]] := by
  have hne : (l ++ [b]).splitBy r ≠ [] := List.splitBy_ne_nil.mpr (by simp)
  obtain ⟨gs, g, hgs⟩ := (List.eq_nil_or_concat' _).resolve_left hne
  have hg : g ≠ [] := List.ne_nil_of_mem_splitBy (r := r) (l := l ++ [b]) (by simp [hgs])
  obtain ⟨g, c, rfl⟩ := (List.eq_nil_or_concat' _).resolve_left hg
  have hflat := List.flatten_splitBy r (l ++ [b])
  rw [hgs, List.flatten_concat, ← List.append_assoc] at hflat
  obtain ⟨-, hc⟩ := List.append_inj' hflat rfl
  obtain rfl : c = b := by simpa using hc
  exact ⟨gs, g, hgs⟩

/-- A related element extends the last run. -/
theorem splitBy_concat_extend {l : List α} {gs : List (List α)} {g : List α} {b a : α}
    (h : (l ++ [b]).splitBy r = gs ++ [g ++ [b]]) (hr : r b a = true) :
    (l ++ [b] ++ [a]).splitBy r = gs ++ [g ++ [b] ++ [a]] := by
  obtain ⟨hflat, hnil, hchain, hgaps⟩ := List.splitBy_eq_iff.mp h
  refine List.splitBy_eq_iff.mpr ⟨by simp [hflat], ?_, ?_, ?_⟩
  · intro hmem
    rcases List.mem_append.mp hmem with hmem | hmem
    · exact hnil (List.mem_append_left _ hmem)
    · simp at hmem
  · intro m hm
    rcases List.mem_append.mp hm with hm | hm
    · exact hchain m (List.mem_append_left _ hm)
    · rw [List.mem_singleton.mp hm]
      have hlast := hchain (g ++ [b]) (by simp)
      rw [List.isChain_append]
      refine ⟨hlast, List.isChain_singleton a, ?_⟩
      simpa using hr
  · -- only the end of the last run changes
    rw [List.isChain_append] at hgaps ⊢
    refine ⟨hgaps.1, List.isChain_singleton _, fun m hm m' hm' => ?_⟩
    obtain ⟨hm₁, hm₂, hfalse⟩ := hgaps.2.2 m hm (g ++ [b]) rfl
    rw [List.head?_singleton, Option.mem_some_iff] at hm'
    subst hm'
    refine ⟨hm₁, by simp, ?_⟩
    rwa [List.head_append_left (by simp)]

/-- The pairs of neighbours in a list. -/
def neighbours (l : List α) : List (α × α) := l.zip l.tail

@[simp] theorem neighbours_cons_cons (a b : α) (l : List α) :
    neighbours (a :: b :: l) = (a, b) :: neighbours (b :: l) := rfl

theorem neighbours_concat (l : List α) (b a : α) :
    neighbours (l ++ [b] ++ [a]) = neighbours (l ++ [b]) ++ [(b, a)] := by
  induction l with
  | nil => rfl
  | cons c l ih =>
    cases l with
    | nil => rfl
    | cons d l =>
      simp only [List.cons_append, neighbours_cons_cons] at ih ⊢
      rw [ih]

theorem neighbours_map {β : Type*} (f : α → β) (l : List α) :
    neighbours (l.map f) = (neighbours l).map (Prod.map f f) := by
  rw [neighbours, neighbours, ← List.map_tail, List.zip_map]

/-- There is a run more than there are neighbours that are not related. -/
theorem length_splitBy {l : List α} (r : α → α → Bool) (hne : l ≠ []) :
    (l.splitBy r).length = (neighbours l).countP (fun p => !r p.1 p.2) + 1 := by
  induction l using List.reverseRecOn with
  | nil => exact absurd rfl hne
  | append_singleton l a ih =>
    rcases List.eq_nil_or_concat' l with rfl | ⟨l, b, rfl⟩
    · rfl
    · have ih := ih (by simp)
      rw [neighbours_concat, List.countP_append]
      cases hr : r b a with
      | true =>
        obtain ⟨gs, g, hgs⟩ := splitBy_concat_eq r l b
        rw [hgs] at ih
        rw [splitBy_concat_extend hgs hr]
        simpa [hr] using ih
      | false =>
        rw [splitBy_concat_fresh (by simpa using hr), List.length_append, ih]
        simp [hr]

/-- The first and the last element of a run. -/
def ends (run : List α) : Option (α × α) :=
  match run.head?, run.getLast? with
  | some first, some last => some (first, last)
  | _, _ => none

/-- Extending a run keeps its first element. -/
theorem ends_concat (g : List α) (b : α) :
    ∃ first, ends (g ++ [b]) = some (first, b) ∧
      ∀ a, ends (g ++ [b] ++ [a]) = some (first, a) := by
  have hends (first : α) (g : List α) (b : α) (h : (g ++ [b]).head? = some first) :
      ends (g ++ [b]) = some (first, b) := by
    rw [ends, h, List.getLast?_concat]
  cases g with
  | nil => exact ⟨b, rfl, fun a => rfl⟩
  | cons c g => exact ⟨c, hends c (c :: g) b rfl, fun a => hends c (c :: g ++ [b]) a rfl⟩

/-- The first and the last elements of the runs. -/
def runEnds (r : α → α → Bool) (l : List α) : List (α × α) := (l.splitBy r).filterMap ends

@[simp] theorem runEnds_nil (r : α → α → Bool) : runEnds r [] = [] := rfl

theorem runEnds_concat_fresh {l : List α} {a : α} (h : ∀ b ∈ l.getLast?, r b a = false) :
    runEnds r (l ++ [a]) = runEnds r l ++ [(a, a)] := by
  rw [runEnds, splitBy_concat_fresh h, List.filterMap_append]
  rfl

/-- The last run, and what a related element makes of it. -/
theorem runEnds_concat (r : α → α → Bool) (l : List α) (b : α) :
    ∃ init first, runEnds r (l ++ [b]) = init ++ [(first, b)] ∧
      ∀ a, r b a = true → runEnds r (l ++ [b] ++ [a]) = init ++ [(first, a)] := by
  obtain ⟨gs, g, hgs⟩ := splitBy_concat_eq r l b
  obtain ⟨first, hfirst, hextend⟩ := ends_concat g b
  refine ⟨gs.filterMap ends, first, ?_, fun a hr => ?_⟩
  · rw [runEnds, hgs, List.filterMap_append, List.filterMap_cons_some hfirst, List.filterMap_nil]
  · rw [runEnds, splitBy_concat_extend hgs hr, List.filterMap_append,
      List.filterMap_cons_some (hextend a), List.filterMap_nil]

theorem length_runEnds (r : α → α → Bool) (l : List α) :
    (runEnds r l).length = (l.splitBy r).length := by
  have hsome : ∀ run ∈ l.splitBy r, (ends run).isSome := by
    intro run hrun
    obtain ⟨g, b, rfl⟩ :=
      (List.eq_nil_or_concat' run).resolve_left (List.ne_nil_of_mem_splitBy hrun)
    obtain ⟨first, hfirst, -⟩ := ends_concat g b
    rw [hfirst]
    rfl
  rw [runEnds, List.length_filterMap_eq_countP, List.countP_eq_length.mpr hsome]

/-- A loop that starts with a run of one element, and keeps its invariant when the next element
becomes the last one of the run or opens a new run, ends with the runs of the list. -/
theorem foldl_runEnds {σ : Type*} {step : σ → α → σ} {s₀ : σ} (P : α → Prop)
    (Inv : List (α × α) → α → α → σ → Prop)
    (start : ∀ a, P a → Inv [] a a (step s₀ a))
    (extend : ∀ init first b a s, P b → r b a = true → Inv init first b s →
      Inv init first a (step s a))
    (fresh : ∀ init first b a s, P b → r b a = false → Inv init first b s →
      Inv (init ++ [(first, b)]) a a (step s a))
    {l : List α} {b : α} (h : ∀ a ∈ l ++ [b], P a) :
    ∃ init first, runEnds r (l ++ [b]) = init ++ [(first, b)] ∧
      Inv init first b ((l ++ [b]).foldl step s₀) := by
  induction l using List.reverseRecOn generalizing b with
  | nil => exact ⟨[], b, rfl, start b (h b (by simp))⟩
  | append_singleton l c ih =>
    have hl := (List.forall_mem_append.mp h).1
    obtain ⟨init, first, hends, hinv⟩ := ih hl
    rw [List.foldl_concat]
    cases hr : r c b with
    | true =>
      obtain ⟨init', first', hends', hextend⟩ := runEnds_concat r l c
      obtain ⟨rfl, hfirst⟩ := List.append_inj' (hends.symm.trans hends') rfl
      obtain rfl : first = first' := by simpa using hfirst
      exact ⟨init, first, hextend b hr, extend init first c b _ (hl c (by simp)) hr hinv⟩
    | false =>
      refine ⟨init ++ [(first, c)], b, ?_, fresh init first c b _ (hl c (by simp)) hr hinv⟩
      rw [runEnds_concat_fresh (by simpa using hr), hends]

end CarFi.Library

import Mathlib.Data.List.Basic
import Mathlib.Data.List.TakeWhile

/-!
# A list cut at its heads

Some elements of a list are heads. The list is then a lead without heads, followed by blocks: a
head with the elements up to the next one. A `Reader` makes a record of a block while it reads the
list once from left to right, and hands a record out when the next head shows that its block is
over. `Reader.read_eq_some` says that it reads block by block, without the last one.
-/
namespace CarFi.Library

variable {α β ρ : Type*}

section Cut

variable (head : α → Bool)

/-- The elements before the first head. -/
def lead (l : List α) : List α := l.takeWhile fun a => !head a

/-- Each head with the elements up to the next one. -/
def blocks : List α → List (α × List α)
  | [] => []
  | a :: l => if head a then (a, lead head l) :: blocks l else blocks l

/-- The lead, unless it is empty, and the blocks. -/
def pieces (l : List α) : List (List α) :=
  (if lead head l = [] then [] else [lead head l]) ++ (blocks head l).map fun b => b.1 :: b.2

end Cut

section Laws

variable {head : α → Bool}

@[simp] theorem lead_nil : lead head [] = [] := rfl

@[simp] theorem blocks_nil : blocks head [] = [] := rfl

theorem lead_cons_of_head {a : α} (h : head a = true) (l : List α) : lead head (a :: l) = [] := by
  simp [lead, h]

theorem lead_cons {a : α} (h : head a = false) (l : List α) :
    lead head (a :: l) = a :: lead head l := by
  simp [lead, h]

theorem blocks_cons_of_head {a : α} (h : head a = true) (l : List α) :
    blocks head (a :: l) = (a, lead head l) :: blocks head l := if_pos h

theorem blocks_cons {a : α} (h : head a = false) (l : List α) :
    blocks head (a :: l) = blocks head l := if_neg (by simp [h])

theorem blocks_eq_nil_iff {l : List α} : blocks head l = [] ↔ ∀ a ∈ l, head a = false := by
  induction l with
  | nil => simp
  | cons a l ih =>
    cases h : head a with
    | false => simp [blocks_cons h, ih, h]
    | true => simp [blocks_cons_of_head h, h]

theorem mem_of_mem_blocks {l : List α} {b : α × List α} (h : b ∈ blocks head l) :
    b.1 ∈ l ∧ head b.1 = true := by
  induction l with
  | nil => simp at h
  | cons a l ih =>
    cases ha : head a with
    | false =>
      obtain ⟨hmem, hb⟩ := ih (by rwa [blocks_cons ha] at h)
      exact ⟨List.mem_cons_of_mem a hmem, hb⟩
    | true =>
      rw [blocks_cons_of_head ha] at h
      rcases List.mem_cons.mp h with rfl | h
      · exact ⟨List.mem_cons_self, ha⟩
      · exact ⟨List.mem_cons_of_mem a (ih h).1, (ih h).2⟩

theorem lead_append_of_blocks_eq_nil {l : List α} (h : blocks head l = []) (l' : List α) :
    lead head (l ++ l') = l ++ lead head l' :=
  List.takeWhile_append_of_pos fun a ha => by simp [blocks_eq_nil_iff.mp h a ha]

theorem lead_append_of_blocks_ne_nil {l : List α} (h : blocks head l ≠ []) (l' : List α) :
    lead head (l ++ l') = lead head l := by
  induction l with
  | nil => simp at h
  | cons a l ih =>
    cases ha : head a with
    | false =>
      rw [List.cons_append, lead_cons ha, lead_cons ha, ih (by rwa [blocks_cons ha] at h)]
    | true => rw [List.cons_append, lead_cons_of_head ha, lead_cons_of_head ha]

theorem blocks_append_of_eq_nil {l : List α} (h : blocks head l = []) (l' : List α) :
    blocks head (l ++ l') = blocks head l' := by
  induction l with
  | nil => rfl
  | cons a l ih =>
    obtain ⟨ha, hl⟩ := List.forall_mem_cons.mp (blocks_eq_nil_iff.mp h)
    rw [List.cons_append, blocks_cons ha, ih (blocks_eq_nil_iff.mpr hl)]

/-- What follows is taken into the last block up to the next head. -/
theorem blocks_append {l : List α} {bs : List (α × List α)} {b : α × List α}
    (h : blocks head l = bs ++ [b]) (l' : List α) :
    blocks head (l ++ l') = bs ++ (b.1, b.2 ++ lead head l') :: blocks head l' := by
  induction l generalizing bs with
  | nil => simp at h
  | cons a l ih =>
    cases ha : head a with
    | false =>
      rw [blocks_cons ha] at h
      rw [List.cons_append, blocks_cons ha, ih h]
    | true =>
      rw [blocks_cons_of_head ha] at h
      rw [List.cons_append, blocks_cons_of_head ha]
      cases bs with
      | nil =>
        obtain ⟨rfl, hl⟩ := List.cons.inj h
        have hall := blocks_eq_nil_iff.mp hl
        rw [lead_append_of_blocks_eq_nil hl, blocks_append_of_eq_nil hl]
        have hlead : lead head l = l :=
          List.takeWhile_eq_self_iff.mpr fun x hx => by simp [hall x hx]
        simp [hlead]
      | cons c bs =>
        obtain ⟨rfl, hl⟩ := List.cons.inj h
        rw [lead_append_of_blocks_ne_nil (by simp [hl]), ih hl]
        rfl

@[simp] theorem pieces_nil : pieces head [] = [] := rfl

theorem ne_nil_of_mem_pieces {l p : List α} (h : p ∈ pieces head l) : p ≠ [] := by
  rcases List.mem_append.mp h with h | h
  · split_ifs at h with hlead
    · cases h
    · rwa [List.mem_singleton.mp h]
  · obtain ⟨b, -, rfl⟩ := List.mem_map.mp h
    simp

/-- A head starts a new piece. -/
theorem pieces_append_of_head {a : α} (ha : head a = true) (l : List α) :
    pieces head (l ++ [a]) = pieces head l ++ [[a]] := by
  have hblock : blocks head [a] = [(a, [])] := by rw [blocks_cons_of_head ha, lead_nil, blocks_nil]
  have hlead : lead head [a] = [] := lead_cons_of_head ha []
  rcases List.eq_nil_or_concat (blocks head l) with hl | ⟨bs, b, hl⟩
  · have hself : lead head l = l := by simpa using lead_append_of_blocks_eq_nil hl []
    simp [pieces, lead_append_of_blocks_eq_nil hl, blocks_append_of_eq_nil hl, hblock,
      hlead, hl, hself]
  · rw [List.concat_eq_append] at hl
    have hne : blocks head l ≠ [] := by simp [hl]
    simp [pieces, lead_append_of_blocks_ne_nil hne, blocks_append hl, hblock, hlead, hl]

/-- Any other element goes to the last piece. -/
theorem pieces_append {a : α} (ha : head a = false) {l : List α}
    {ps : List (List α)} {p : List α} (h : pieces head l = ps ++ [p]) :
    pieces head (l ++ [a]) = ps ++ [p ++ [a]] := by
  have hblock : blocks head [a] = [] := blocks_cons ha []
  have hlead : lead head [a] = [a] := lead_cons ha []
  rcases List.eq_nil_or_concat (blocks head l) with hl | ⟨bs, b, hl⟩
  · have hself : lead head l = l := by simpa using lead_append_of_blocks_eq_nil hl []
    have hone : ps = [] ∧ p = l := by
      unfold pieces at h
      rw [hself, hl] at h
      split_ifs at h with hnil
      · simp at h
      · exact ⟨by simpa using congrArg List.dropLast h.symm,
          by simpa using congrArg List.getLast? h.symm⟩
    obtain ⟨rfl, rfl⟩ := hone
    simp [pieces, lead_append_of_blocks_eq_nil hl, blocks_append_of_eq_nil hl, hblock, hlead]
  · rw [List.concat_eq_append] at hl
    have hne : blocks head l ≠ [] := by simp [hl]
    have hlast : ps ++ [p] = (if lead head l = [] then [] else [lead head l]) ++
        bs.map (fun b => b.1 :: b.2) ++ [b.1 :: b.2] := by
      rw [← h, pieces, hl, List.map_append, List.append_assoc]
      rfl
    obtain ⟨rfl, hp⟩ := List.append_inj' hlast rfl
    obtain rfl := List.singleton_inj.mp hp
    simp [pieces, lead_append_of_blocks_ne_nil hne, blocks_append hl, hblock, hlead]

end Laws

/-! ## Lists of results -/

theorem mapM_eq_none_iff {f : α → Option β} {l : List α} :
    l.mapM f = none ↔ ∃ a ∈ l, f a = none := by
  induction l with
  | nil => simp
  | cons a l ih =>
    rw [List.mapM_cons]
    cases ha : f a with
    | none => simp [ha]
    | some b =>
      cases hl : l.mapM f with
      | none => simpa [ha, hl] using ih
      | some bs => simpa [ha, hl] using ih

theorem map_eq_of_mapM_eq_some {f : α → Option β} {l : List α} {bs : List β}
    (h : l.mapM f = some bs) : l.map f = bs.map some := by
  induction l generalizing bs with
  | nil =>
    obtain rfl : [] = bs := by simpa using h
    rfl
  | cons a l ih =>
    rw [List.mapM_cons] at h
    obtain ⟨b, hb, h⟩ := Option.bind_eq_some_iff.mp h
    obtain ⟨bs', hbs', h⟩ := Option.bind_eq_some_iff.mp h
    obtain rfl : b :: bs' = bs := by simpa using h
    rw [List.map_cons, hb, ih hbs', List.map_cons]

/-! ## Reading -/

/-- The record of a block is made from its head and changed by every other element. -/
structure Reader (α ρ : Type*) where
  start : α → Option ρ
  update : ρ → α → Option ρ

namespace Reader

def record (R : Reader α ρ) (b : α × List α) : Option ρ :=
  do b.2.foldlM R.update (← R.start b.1)

variable (R : Reader α ρ) (head : α → Bool) (emit : ρ → Option β)

/-- One element: what has been handed out, and the record of the current block. -/
def step (s : List β × Option ρ) (a : α) : Option (List β × Option ρ) :=
  if head a then (R.start a).map fun r => (s.1 ++ (s.2.bind emit).toList, some r)
  else match s.2 with
    | none => some s
    | some r => (R.update r a).map fun r => (s.1, some r)

/-- The records handed out for a list; the last block has no end. -/
def read (l : List α) : Option (List β) :=
  (l.foldlM (R.step head emit) ([], none)).map (·.1)

variable {R head emit}

/-- The rest of a list is read into the current block up to the next head. -/
theorem foldlM_step (out : List β) (r : ρ) (l : List α) :
    (l.foldlM (R.step head emit) (out, some r)).map (·.1) =
      ((lead head l).foldlM R.update r).bind fun r =>
        ((blocks head l).mapM R.record).map fun rs => out ++ (r :: rs).dropLast.filterMap emit := by
  induction l generalizing out r with
  | nil => simp
  | cons a l ih =>
    cases ha : head a with
    | false =>
      rw [lead_cons ha, blocks_cons ha, List.foldlM_cons, List.foldlM_cons]
      cases hr : R.update r a with
      | none => simp [step, ha, hr]
      | some r' =>
        have hstep : R.step head emit (out, some r) a = some (out, some r') := by
          simp [step, ha, hr]
        rw [hstep]
        exact ih out r'
    | true =>
      rw [lead_cons_of_head ha, blocks_cons_of_head ha, List.foldlM_cons, List.mapM_cons]
      cases hr : R.start a with
      | none => simp [step, ha, hr, record]
      | some r' =>
        have hstep : R.step head emit (out, some r) a = some (out ++ (emit r).toList, some r') := by
          simp [step, ha, hr]
        have hrecord : R.record (a, lead head l) = (lead head l).foldlM R.update r' := by
          simp [record, hr]
        rw [hstep, hrecord]
        refine (ih _ r').trans ?_
        cases (lead head l).foldlM R.update r' with
        | none => rfl
        | some r' =>
          cases (blocks head l).mapM R.record with
          | none => rfl
          | some rs =>
            have hcons : (r :: (r' :: rs).dropLast).filterMap emit =
                (emit r).toList ++ (r' :: rs).dropLast.filterMap emit := by
              rw [List.filterMap_cons]
              cases emit r <;> rfl
            simp [hcons]

/-- A list is read block by block. -/
theorem read_eq (l : List α) :
    R.read head emit l =
      ((blocks head l).mapM R.record).map fun rs => rs.dropLast.filterMap emit := by
  unfold read
  induction l with
  | nil => simp
  | cons a l ih =>
    cases ha : head a with
    | false =>
      have hstep : R.step head emit ([], none) a = some ([], none) := by simp [step, ha]
      rw [blocks_cons ha, List.foldlM_cons, hstep]
      exact ih
    | true =>
      rw [blocks_cons_of_head ha, List.foldlM_cons, List.mapM_cons]
      cases hr : R.start a with
      | none => simp [step, ha, hr, record]
      | some r =>
        have hstep : R.step head emit ([], none) a = some ([], some r) := by simp [step, ha, hr]
        have hrecord : R.record (a, lead head l) = (lead head l).foldlM R.update r := by
          simp [record, hr]
        rw [hstep, hrecord]
        refine (foldlM_step [] r l).trans ?_
        cases (lead head l).foldlM R.update r with
        | none => rfl
        | some r =>
          cases (blocks head l).mapM R.record with
          | none => rfl
          | some rs => simp

theorem read_eq_none_iff {l : List α} :
    R.read head emit l = none ↔ ∃ b ∈ blocks head l, R.record b = none := by
  rw [read_eq, Option.map_eq_none_iff, mapM_eq_none_iff]

/-- A list whose blocks can be read gives what their records hand out, without the last one. -/
theorem read_eq_some {l : List α} (h : ∀ b ∈ blocks head l, (R.record b).isSome) :
    R.read head emit l =
      some ((blocks head l).dropLast.filterMap fun b => (R.record b).bind emit) := by
  rw [read_eq]
  cases hrs : (blocks head l).mapM R.record with
  | none =>
    obtain ⟨b, hb, hnone⟩ := mapM_eq_none_iff.mp hrs
    have hsome := h b hb
    simp [hnone] at hsome
  | some rs =>
    have hmap : (blocks head l).dropLast.map R.record = rs.dropLast.map some := by
      rw [List.map_dropLast, map_eq_of_mapM_eq_some hrs, List.map_dropLast]
    calc some (rs.dropLast.filterMap emit)
      _ = some ((rs.dropLast.map some).filterMap (·.bind emit)) := by
        rw [List.filterMap_map]
        rfl
      _ = _ := by
        rw [← hmap, List.filterMap_map]
        rfl

end Reader

end CarFi.Library

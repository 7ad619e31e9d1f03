import CarFi.Library.Blocks

/-!
# Reading a list in chunks

A list may be read at once or in chunks, each by a reader that starts anew. The last record of a
chunk is not handed out, whereas in the whole list it is handed out if a head follows.
`Reader.Separate` says that no chunk leaves anything to a later one; by `Separate.flatten` and
`separate_of_length_le` this is what makes the two agree.
-/
namespace CarFi.Library.Reader

variable {α β ρ : Type*} (R : Reader α ρ) (head : α → Bool) (emit : ρ → Option β)

/-- Every block of the list can be read. -/
def Reads (l : List α) : Prop := ∀ b ∈ blocks head l, (R.record b).isSome

/-- What is handed out for a list that can be read. -/
def out (l : List α) : List β :=
  (blocks head l).dropLast.filterMap fun b => (R.record b).bind emit

/-- The last record of a chunk can be read on into the next ones, and is not handed out there. -/
def Separate : List (List α) → Prop
  | [] => True
  | c :: cs =>
    (∀ b ∈ (blocks head c).getLast?, ∃ r,
      R.record (b.1, b.2 ++ lead head cs.flatten) = some r ∧
      (blocks head cs.flatten ≠ [] → emit r = none)) ∧ Separate cs

variable {R head emit}

theorem record_append {b : α × List α} {t : List α}
    (h : (R.record (b.1, b.2 ++ t)).isSome) : (R.record b).isSome := by
  obtain ⟨r, hr⟩ := Option.isSome_iff_exists.mp h
  rw [record] at hr ⊢
  cases hs : R.start b.1 with
  | none => simp [hs] at hr
  | some r₀ =>
    rw [hs, Option.bind_eq_bind, Option.bind_some, List.foldlM_append] at hr
    obtain ⟨r₁, hr₁, -⟩ := Option.bind_eq_some_iff.mp hr
    simp [hr₁]

theorem reads_append_iff_of_eq_nil {l : List α} (h : blocks head l = []) (l' : List α) :
    R.Reads head (l ++ l') ↔ R.Reads head l' := by
  rw [Reads, Reads, blocks_append_of_eq_nil h]

theorem reads_append_iff {l : List α} {bs : List (α × List α)} {b : α × List α}
    (h : blocks head l = bs ++ [b]) (l' : List α) :
    R.Reads head (l ++ l') ↔ (∀ b ∈ bs, (R.record b).isSome) ∧
      (R.record (b.1, b.2 ++ lead head l')).isSome ∧ R.Reads head l' := by
  simp [Reads, blocks_append h, or_imp, forall_and]

theorem out_append_of_eq_nil {l : List α} (h : blocks head l = []) (l' : List α) :
    R.out head emit (l ++ l') = R.out head emit l' := by
  rw [out, out, blocks_append_of_eq_nil h]

theorem out_append {l : List α} {bs : List (α × List α)} {b : α × List α}
    (h : blocks head l = bs ++ [b]) (l' : List α) :
    R.out head emit (l ++ l') = R.out head emit l ++
      ((if blocks head l' = [] then none
        else (R.record (b.1, b.2 ++ lead head l')).bind emit).toList ++ R.out head emit l') := by
  have hl : R.out head emit l = bs.filterMap fun b => (R.record b).bind emit := by
    rw [out, h, List.dropLast_concat]
  rw [hl, out, out, blocks_append h]
  cases hl' : blocks head l' with
  | nil => simp
  | cons b' bs' =>
    rw [List.dropLast_append_of_ne_nil (by simp), List.filterMap_append, List.dropLast_cons_cons,
      List.filterMap_cons, if_neg (by simp)]
    cases (R.record (b.1, b.2 ++ lead head l')).bind emit <;> simp

theorem Reads.left {l l' : List α} (h : R.Reads head (l ++ l')) : R.Reads head l := by
  rcases List.eq_nil_or_concat (blocks head l) with hl | ⟨bs, b, hl⟩
  · simp [Reads, hl]
  · rw [List.concat_eq_append] at hl
    obtain ⟨hbs, hb, -⟩ := (reads_append_iff hl l').mp h
    intro x hx
    rw [hl] at hx
    rcases List.mem_append.mp hx with hx | hx
    · exact hbs x hx
    · rw [List.mem_singleton.mp hx]
      exact record_append hb

theorem Reads.right {l l' : List α} (h : R.Reads head (l ++ l')) : R.Reads head l' := by
  rcases List.eq_nil_or_concat (blocks head l) with hl | ⟨bs, b, hl⟩
  · exact (reads_append_iff_of_eq_nil hl l').mp h
  · rw [List.concat_eq_append] at hl
    exact ((reads_append_iff hl l').mp h).2.2

theorem Separate.append {cs cs' : List (List α)} (h : R.Separate head emit (cs ++ cs')) :
    R.Separate head emit cs ∧ R.Separate head emit cs' := by
  induction cs with
  | nil => exact ⟨trivial, h⟩
  | cons c cs ih =>
    rw [List.cons_append] at h
    obtain ⟨hlast, h⟩ := h
    obtain ⟨hcs, hcs'⟩ := ih h
    refine ⟨⟨fun b hb => ?_, hcs⟩, hcs'⟩
    obtain ⟨r, hr, hemit⟩ := hlast b hb
    rw [List.flatten_append] at hr hemit
    by_cases hnil : blocks head cs.flatten = []
    · rw [lead_append_of_blocks_eq_nil hnil, ← List.append_assoc] at hr
      have hself : lead head cs.flatten = cs.flatten := by
        simpa using lead_append_of_blocks_eq_nil hnil []
      have hsome : (R.record (b.1, b.2 ++ cs.flatten)).isSome :=
        record_append (b := (b.1, b.2 ++ cs.flatten)) (Option.isSome_of_eq_some hr)
      obtain ⟨r', hr'⟩ := Option.isSome_iff_exists.mp hsome
      exact ⟨r', by rwa [hself], fun h => absurd hnil h⟩
    · rw [lead_append_of_blocks_ne_nil hnil] at hr
      refine ⟨r, hr, fun _ => hemit ?_⟩
      obtain ⟨bs, b', hb'⟩ :=
        List.eq_nil_or_concat (blocks head cs.flatten) |>.resolve_left hnil
      rw [List.concat_eq_append] at hb'
      simp [blocks_append hb']

theorem Reads.of_mem_flatten {cs : List (List α)} (h : R.Reads head cs.flatten) {c : List α}
    (hc : c ∈ cs) : R.Reads head c := by
  obtain ⟨before, after, rfl⟩ := List.append_of_mem hc
  rw [List.flatten_append, List.flatten_cons] at h
  exact h.right.left

/-- Reading at once hands out at least what reading in chunks does. -/
theorem length_out_le (cs : List (List α)) :
    (cs.flatMap (R.out head emit)).length ≤ (R.out head emit cs.flatten).length := by
  induction cs with
  | nil => simp
  | cons c cs ih =>
    rw [List.flatMap_cons, List.flatten_cons, List.length_append]
    rcases List.eq_nil_or_concat (blocks head c) with hc | ⟨bs, b, hc⟩
    · have hnone : R.out head emit c = [] := by simp [out, hc]
      rw [out_append_of_eq_nil hc, hnone]
      simpa using ih
    · rw [List.concat_eq_append] at hc
      rw [out_append hc, List.length_append, List.length_append]
      omega

theorem Separate.flatten {cs : List (List α)} (h : R.Separate head emit cs)
    (hread : ∀ c ∈ cs, R.Reads head c) :
    R.Reads head cs.flatten ∧ R.out head emit cs.flatten = cs.flatMap (R.out head emit) := by
  induction cs with
  | nil => exact ⟨by simp [Reads], rfl⟩
  | cons c cs ih =>
    obtain ⟨hlast, hcs⟩ := h
    obtain ⟨hc, hread⟩ := List.forall_mem_cons.mp hread
    obtain ⟨ihread, ihout⟩ := ih hcs hread
    rw [List.flatten_cons, List.flatMap_cons]
    rcases List.eq_nil_or_concat (blocks head c) with hb | ⟨bs, b, hb⟩
    · have hnone : R.out head emit c = [] := by simp [out, hb]
      rw [reads_append_iff_of_eq_nil hb, out_append_of_eq_nil hb, hnone, ihout]
      exact ⟨ihread, rfl⟩
    · rw [List.concat_eq_append] at hb
      obtain ⟨r, hr, hemit⟩ := hlast b (by simp [hb])
      have hbs : ∀ b ∈ bs, (R.record b).isSome := fun b hmem => hc b (by simp [hb, hmem])
      rw [reads_append_iff hb, out_append hb, ihout]
      refine ⟨⟨hbs, by simp [hr], ihread⟩, ?_⟩
      split_ifs with hnil
      · simp
      · simp [hr, hemit hnil]

/-- Chunks that can be read at once are separate if nothing more is handed out. -/
theorem separate_of_length_le {cs : List (List α)} (hread : R.Reads head cs.flatten)
    (hlen : (R.out head emit cs.flatten).length ≤ (cs.flatMap (R.out head emit)).length) :
    R.Separate head emit cs := by
  induction cs with
  | nil => trivial
  | cons c cs ih =>
    have hle := @length_out_le _ _ _ R head emit cs
    rw [List.flatten_cons] at hread hlen
    rw [List.flatMap_cons, List.length_append] at hlen
    rcases List.eq_nil_or_concat (blocks head c) with hb | ⟨bs, b, hb⟩
    · have hnone : R.out head emit c = [] := by simp [out, hb]
      rw [out_append_of_eq_nil hb, hnone] at hlen
      exact ⟨by simp [hb], ih hread.right (by simpa using hlen)⟩
    · rw [List.concat_eq_append] at hb
      rw [out_append hb, List.length_append, List.length_append] at hlen
      obtain ⟨-, hrec, hcs⟩ := (reads_append_iff hb _).mp hread
      obtain ⟨r, hr⟩ := Option.isSome_iff_exists.mp hrec
      refine ⟨?_, ih hcs (by omega)⟩
      intro b' hb'
      obtain rfl : b = b' := by simpa [hb] using hb'
      refine ⟨r, hr, fun hne => ?_⟩
      rw [if_neg hne, hr, Option.bind_some] at hlen
      cases hemit : emit r with
      | none => rfl
      | some x =>
        rw [hemit, Option.toList_some, List.length_singleton] at hlen
        omega

end CarFi.Library.Reader

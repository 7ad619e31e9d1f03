import Mathlib.Data.List.Forall2
import Mathlib.Logic.Function.Basic

/-!
# Automata over a stream of rows

A program that reads a log is a fold that may fail. When every row belongs to one key and
only moves the state of that key, the fold is one independent fold per key (`keyed_fold`).
The rest is the vocabulary in which such a fold is specified: the blocks that a closing row
ends (`closedBlocks`), and the last position of a kind of row (`lastIdx?`).
-/
namespace CarFi.Library

section Keyed

universe u

variable {α κ ε : Type*} {σ : Type u} [DecidableEq κ]

/-- A row moves the state of its key; a row without a key moves nothing. -/
def keyed (key : α → Option κ) (step : σ → α → Except ε σ)
    (states : κ → σ) (a : α) : Except ε (κ → σ) :=
  match key a with
  | none => .ok states
  | some k =>
    match step (states k) a with
    | .error e => .error e
    | .ok s => .ok (Function.update states k s)

theorem bind_eq_ok {β : Type u} {x : Except ε σ} {f : σ → Except ε β} {b : β} :
    (x >>= f) = .ok b ↔ ∃ s, x = .ok s ∧ f s = .ok b := by
  cases x with
  | error e => simp [bind, Except.bind]
  | ok s => simp [bind, Except.bind]

theorem foldlM_cons_eq_ok {f : σ → α → Except ε σ} {s s' : σ} {a : α} {as : List α} :
    (a :: as).foldlM f s = .ok s' ↔ ∃ t, f s a = .ok t ∧ as.foldlM f t = .ok s' := by
  rw [List.foldlM_cons, bind_eq_ok]

/-- The keyed fold succeeds exactly when the fold of every key succeeds on its own rows. -/
theorem keyed_fold {key : α → Option κ} {step : σ → α → Except ε σ}
    {init final : κ → σ} {rows : List α} :
    rows.foldlM (keyed key step) init = .ok final ↔
      ∀ k, (rows.filter fun a => key a = some k).foldlM step (init k) = .ok (final k) := by
  induction rows generalizing init with
  | nil =>
    simp only [List.foldlM_nil, List.filter_nil, pure, Except.pure, Except.ok.injEq]
    exact funext_iff
  | cons a rows ih =>
    rw [foldlM_cons_eq_ok]
    cases hk : key a with
    | none => simp [keyed, hk, ih]
    | some k =>
      constructor
      · rintro ⟨t, ht, hrows⟩ k'
        cases hs : step (init k) a with
        | error e => simp [keyed, hk, hs] at ht
        | ok s =>
          obtain rfl : Function.update init k s = t := by simpa [keyed, hk, hs] using ht
          have hfold := ih.mp hrows k'
          by_cases hkk : k = k'
          · subst hkk
            simp only [hk, decide_true, List.filter_cons_of_pos]
            exact foldlM_cons_eq_ok.mpr ⟨s, hs, by simpa using hfold⟩
          · simpa [hk, hkk, Function.update_of_ne (Ne.symm hkk)] using hfold
      · intro h
        have hown := h k
        simp only [hk, decide_true, List.filter_cons_of_pos] at hown
        obtain ⟨s, hs, hown⟩ := foldlM_cons_eq_ok.mp hown
        refine ⟨Function.update init k s, by simp [keyed, hk, hs], ih.mpr fun k' => ?_⟩
        by_cases hkk : k = k'
        · subst hkk
          simpa using hown
        · simpa [hk, hkk, Function.update_of_ne (Ne.symm hkk)] using h k'

/-- The rows of one key, folded alone, move its state as the whole stream does. -/
theorem keyed_fold_own {key key' : α → Option κ} {step : σ → α → Except ε σ}
    {init final : κ → σ} {rows : List α} {k : κ} {own : α → Bool}
    (h : rows.foldlM (keyed key step) init = .ok final)
    (hkey : ∀ a, key a = some k → own a = true)
    (hown : ∀ a, own a = true → key' a = key a ∧ (key a = some k ∨ key a = none)) :
    (rows.filter own).foldlM (keyed key' step) init =
      .ok (Function.update init k (final k)) := by
  rw [keyed_fold]
  intro k'
  by_cases hk : k' = k
  · subst hk
    have hsame : ((rows.filter own).filter fun a => key' a = some k') =
        rows.filter fun a => key a = some k' := by
      rw [List.filter_filter]
      refine List.filter_congr fun a _ => ?_
      by_cases ha : own a = true
      · simp [ha, (hown a ha).1]
      · have hne : key a ≠ some k' := fun hak => ha (hkey a hak)
        simp [ha, hne]
    rw [hsame, keyed_fold.mp h k', Function.update_self]
  · have hnone : ((rows.filter own).filter fun a => key' a = some k') = [] := by
      rw [List.filter_eq_nil_iff]
      intro a ha
      obtain ⟨hsame, hcases⟩ := hown a (List.mem_filter.mp ha).2
      rcases hcases with ha | ha
      · simpa [hsame, ha] using Ne.symm hk
      · simp [hsame, ha]
    rw [hnone, Function.update_of_ne hk]
    rfl

end Keyed

section Blocks

variable {α : Type*}

/-- The blocks ended by a closing row, after the rows of `buf`; rows after the last closing
row are in no block. -/
def closedBlocksFrom (closes : α → Bool) : List α → List α → List (List α)
  | _, [] => []
  | buf, a :: as =>
    if closes a then (buf ++ [a]) :: closedBlocksFrom closes [] as
    else closedBlocksFrom closes (buf ++ [a]) as

def closedBlocks (closes : α → Bool) (as : List α) : List (List α) :=
  closedBlocksFrom closes [] as

/-- A block is its body and its closing row, and lies in the stream as one piece. -/
theorem mem_closedBlocksFrom {closes : α → Bool} {buf as blk : List α}
    (h : blk ∈ closedBlocksFrom closes buf as) :
    ∃ body a, blk = body ++ [a] ∧ closes a = true ∧ (blk <:+: buf ++ as) ∧
      ((∀ b ∈ buf, closes b = false) → ∀ b ∈ body, closes b = false) := by
  induction as generalizing buf with
  | nil => simp [closedBlocksFrom] at h
  | cons a as ih =>
    simp only [closedBlocksFrom] at h
    split at h
    · rename_i ha
      rcases List.mem_cons.mp h with rfl | h
      · exact ⟨buf, a, rfl, ha, ⟨[], as, by simp⟩, id⟩
      · obtain ⟨body, c, hblk, hc, hin, hbody⟩ := ih h
        refine ⟨body, c, hblk, hc, ?_, fun _ => hbody (by simp)⟩
        have hpart : as <:+: buf ++ a :: as := ⟨buf ++ [a], [], by simp⟩
        exact (by simpa using hin : blk <:+: as).trans hpart
    · rename_i ha
      obtain ⟨body, c, hblk, hc, hin, hbody⟩ := ih h
      refine ⟨body, c, hblk, hc, by simpa using hin, fun hbuf => hbody fun b hb => ?_⟩
      rcases List.mem_append.mp hb with hb | hb
      · exact hbuf b hb
      · simpa [List.mem_singleton.mp hb] using ha

theorem mem_closedBlocks {closes : α → Bool} {as blk : List α}
    (h : blk ∈ closedBlocks closes as) :
    ∃ body a, blk = body ++ [a] ∧ closes a = true ∧ blk <:+: as ∧
      ∀ b ∈ body, closes b = false := by
  obtain ⟨body, a, hblk, ha, hin, hbody⟩ := mem_closedBlocksFrom h
  exact ⟨body, a, hblk, ha, by simpa using hin, hbody (by simp)⟩

/-- The blocks are consecutive pieces of the stream. -/
theorem flatten_closedBlocksFrom_isPrefix (closes : α → Bool) (buf as : List α) :
    (closedBlocksFrom closes buf as).flatten <+: buf ++ as := by
  induction as generalizing buf with
  | nil => simp [closedBlocksFrom]
  | cons a as ih =>
    simp only [closedBlocksFrom]
    split
    · have hrest : (closedBlocksFrom closes [] as).flatten <+: as := by simpa using ih []
      rw [List.flatten_cons, List.append_cons buf a as]
      simpa using hrest
    · simpa using ih (buf ++ [a])

/-- In lists related by a function, the members of the second are the values of the first. -/
theorem mem_right_iff_of_forall₂ {β : Type*} {R : α → β → Prop} {as : List α}
    {bs : List β} (hfun : ∀ a b b', R a b → R a b' → b = b')
    (h : List.Forall₂ R as bs) {b : β} : b ∈ bs ↔ ∃ a ∈ as, R a b := by
  induction h with
  | nil => simp
  | @cons a c as bs hac _ ih =>
    simp only [List.mem_cons, ih, exists_eq_or_imp]
    exact or_congr ⟨fun hb => hb ▸ hac, fun hb => hfun a b c hb hac⟩ Iff.rfl

theorem exists_right_of_forall₂ {β : Type*} {R : α → β → Prop} {as : List α}
    {bs : List β} (h : List.Forall₂ R as bs) {a : α} (ha : a ∈ as) : ∃ b ∈ bs, R a b := by
  induction h with
  | nil => simp at ha
  | @cons c b as bs hcb _ ih =>
    rcases List.mem_cons.mp ha with rfl | ha
    · exact ⟨b, by simp, hcb⟩
    · obtain ⟨d, hd, had⟩ := ih ha
      exact ⟨d, by simp [hd], had⟩

/-- An order of the first list is one of the second when related members say so. -/
theorem pairwise_of_forall₂ {β : Type*} {R : α → β → Prop} {P : α → α → Prop}
    {Q : β → β → Prop} (hPQ : ∀ a a' b b', R a b → R a' b' → P a a' → Q b b')
    {as : List α} {bs : List β} (h : List.Forall₂ R as bs) (has : as.Pairwise P) :
    bs.Pairwise Q := by
  induction h with
  | nil => exact List.Pairwise.nil
  | @cons a b as bs hab hrest ih =>
    obtain ⟨hfirst, has⟩ := List.pairwise_cons.mp has
    refine List.pairwise_cons.mpr ⟨fun b' hb' => ?_, ih has⟩
    obtain ⟨a', ha', hab'⟩ := exists_right_of_forall₂ hrest.flip hb'
    exact hPQ a a' b b' hab hab' (hfirst a' ha')

/-- The last position at which a predicate holds. -/
def lastIdx? (p : α → Bool) : List α → Option Nat
  | [] => none
  | a :: as =>
    match lastIdx? p as with
    | some i => some (i + 1)
    | none => if p a then some 0 else none

theorem lastIdx?_concat (p : α → Bool) (as : List α) (a : α) :
    lastIdx? p (as ++ [a]) = if p a then some as.length else lastIdx? p as := by
  induction as with
  | nil => simp [lastIdx?]
  | cons b as ih =>
    by_cases h : p a = true
    · simp [lastIdx?, ih, h]
    · simp [lastIdx?, ih, h]

theorem lastIdx?_eq_none {p : α → Bool} {as : List α} :
    lastIdx? p as = none ↔ ∀ a ∈ as, p a = false := by
  induction as with
  | nil => simp [lastIdx?]
  | cons b as ih =>
    cases h : lastIdx? p as with
    | none =>
      have hall := ih.mp h
      simpa [lastIdx?, h] using fun _ => hall
    | some i =>
      have : ¬ ∀ a ∈ as, p a = false := fun hall => by simp [ih.mpr hall] at h
      simp only [lastIdx?, h, reduceCtorEq, List.mem_cons, forall_eq_or_imp, false_iff]
      exact fun hall => this hall.2

theorem lastIdx?_eq_some {p : α → Bool} {as : List α} {i : Nat} (h : lastIdx? p as = some i) :
    ∃ a, as[i]? = some a ∧ p a = true ∧ ∀ j b, i < j → as[j]? = some b →
      p b = false := by
  induction as generalizing i with
  | nil => simp [lastIdx?] at h
  | cons b as ih =>
    simp only [lastIdx?] at h
    split at h
    · rename_i k hk
      obtain rfl : k + 1 = i := by simpa using h
      obtain ⟨a, ha, hp, hlast⟩ := ih hk
      refine ⟨a, by simpa using ha, hp, fun j c hj hc => ?_⟩
      obtain ⟨j, rfl⟩ : ∃ j', j = j' + 1 := ⟨j - 1, by omega⟩
      exact hlast j c (by omega) (by simpa using hc)
    · rename_i hnone
      split at h
      · rename_i hb
        obtain rfl : 0 = i := by simpa using h
        refine ⟨b, rfl, hb, fun j c hj hc => ?_⟩
        obtain ⟨j, rfl⟩ : ∃ j', j = j' + 1 := ⟨j - 1, by omega⟩
        exact lastIdx?_eq_none.mp hnone c (List.mem_of_getElem? (by simpa using hc))
      · simp at h

theorem lastIdx?_append (p : α → Bool) (as bs : List α) :
    lastIdx? p (as ++ bs) =
      match lastIdx? p bs with
      | some i => some (as.length + i)
      | none => lastIdx? p as := by
  induction as with
  | nil => cases h : lastIdx? p bs <;> simp [lastIdx?, h]
  | cons a as ih =>
    rw [List.cons_append, lastIdx?, ih]
    cases h : lastIdx? p bs with
    | none => simp [lastIdx?]
    | some i =>
      simp only [List.length_cons, Option.some.injEq]
      omega

end Blocks

section Insertion

variable {α : Type*}

/-- Where a position of a list goes when `k` members are inserted at the position `n`. -/
def shift (n k i : Nat) : Nat := if i < n then i else i + k

theorem shift_of_lt {n k i : Nat} (h : i < n) : shift n k i = i := if_pos h

theorem shift_of_le {n k i : Nat} (h : n ≤ i) : shift n k i = i + k := if_neg (by omega)

theorem exists_shift_succ (n k i : Nat) : ∃ j, shift n k (i + 1) = j + 1 := by
  unfold shift
  split
  · exact ⟨i, rfl⟩
  · exact ⟨i + k, by omega⟩

theorem getElem?_insert (as xs bs : List α) (i : Nat) :
    (as ++ (xs ++ bs))[shift as.length xs.length i]? = (as ++ bs)[i]? := by
  by_cases h : i < as.length
  · rw [shift_of_lt h, List.getElem?_append_left h, List.getElem?_append_left h]
  · have hle : as.length ≤ i := by omega
    rw [shift_of_le hle, List.getElem?_append_right (by omega),
      List.getElem?_append_right (by omega), List.getElem?_append_right hle]
    congr 1
    omega

/-- Members without the property do not matter for its last position. -/
theorem lastIdx?_insert {p : α → Bool} (as : List α) {xs : List α} (bs : List α)
    (h : ∀ x ∈ xs, p x = false) :
    lastIdx? p (as ++ (xs ++ bs)) =
      (lastIdx? p (as ++ bs)).map (shift as.length xs.length) := by
  have hxs : lastIdx? p xs = none := lastIdx?_eq_none.mpr h
  simp only [lastIdx?_append, hxs]
  cases lastIdx? p bs with
  | some i =>
    have hle : as.length ≤ as.length + i := by omega
    simp only [Option.map_some, shift_of_le hle, Option.some.injEq]
    omega
  | none =>
    cases has : lastIdx? p as with
    | none => rfl
    | some i =>
      obtain ⟨a, ha, -⟩ := lastIdx?_eq_some has
      have hlt : i < as.length := (List.getElem?_eq_some_iff.mp ha).1
      simp [shift_of_lt hlt]

end Insertion

section Rejected

/-- When what has been read decides the state, the fold fails at the first element that is rejected.
-/
theorem foldlM_eq_findSome {α ε σ : Type*} {f : σ → α → Except ε σ}
    {err : α → Option ε} {state : List α → σ}
    (hstep : ∀ as a, f (state as) a = (err a).elim (.ok (state (as ++ [a]))) .error)
    (as bs : List α) : bs.foldlM f (state as) =
      (bs.findSome? err).elim (.ok (state (as ++ bs))) .error := by
  induction bs generalizing as with
  | nil => simp [pure, Except.pure]
  | cons b bs ih =>
    rw [List.foldlM_cons, hstep, List.findSome?_cons]
    cases err b with
    | some e => rfl
    | none => simpa [bind, Except.bind] using ih (as ++ [b])

end Rejected

end CarFi.Library

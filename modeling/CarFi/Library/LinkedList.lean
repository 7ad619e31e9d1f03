import Mathlib.Data.Bool.Basic
import Mathlib.Data.List.Induction
import Mathlib.Data.List.TakeWhile
import Mathlib.Order.Lattice

/-!
# Doubly linked lists whose head does not move

A doubly linked list is a chain of nodes and a pointer to its head. If a node is put before the head
and the pointer is not moved, the node is in the chain but cannot be reached from the head. So a
list is given here by the nodes from the head on and those before it. Keeping such a list sorted by
a key puts every node whose key is below the first one's out of reach, and freeing the list node by
node then frees the head more than once.
-/
namespace CarFi.Library

variable {α κ : Type*}

/-- The nodes from the head on, and those before it, which are reached only backwards. -/
structure Linked (α : Type*) where
  hidden : List α := []
  list : List α := []

namespace Linked

/-- Inserting a node before the first node of `rest`; without one the new node becomes the last. -/
def insertBefore (l : Linked α) (passed rest : List α) (node : α) : Linked α :=
  if rest = [] then { l with list := passed ++ [node] }
  else if passed = [] then ⟨l.hidden ++ [node], rest⟩
  else { l with list := passed ++ node :: rest }

/-- Removing the head and freeing it, until there is none. If a node comes before the head, removing
the head does not move the pointer, and the next turn uses freed memory: `none`. -/
def freeNodes (hidden : List α) : List α → Option (List α)
  | [] => some []
  | node :: rest => if hidden = [] then (freeNodes hidden rest).map (node :: ·) else none

theorem freeNodes_eq_none {hidden list : List α} :
    freeNodes hidden list = none ↔ hidden ≠ [] ∧ list ≠ [] := by
  induction list with
  | nil => simp [freeNodes]
  | cons node rest ih => by_cases h : hidden = [] <;> simp_all [freeNodes]

variable [LinearOrder κ] (key : α → κ)

/-- The nodes with smaller keys are passed, and the node is inserted there; a node whose key is in
the list is not inserted. -/
def insertByKey (l : Linked α) (node : α) : Linked α :=
  let passed := l.list.takeWhile fun cur => key cur < key node
  let rest := l.list.dropWhile fun cur => key cur < key node
  if rest.head?.any (fun cur => key cur = key node) then l else l.insertBefore passed rest node

/-- What the list is like after some insertions: the nodes below the first one are hidden, and of
each other key the first node is in the list. -/
structure Collected (nodes : List α) (l : Linked α) : Prop where
  sorted : l.list.Pairwise fun a b => key a < key b
  head : l.list.head? = nodes.head?
  hidden : l.hidden = nodes.filter fun a => nodes.head?.any fun first => key a < key first
  mem : ∀ a, a ∈ l.list ↔
    nodes.find? (fun b => key b = key a) = some a ∧
      nodes.head?.all fun first => key first ≤ key a

variable {key}

/-- A sorted list is cut where the key belongs. -/
theorem le_of_mem_dropWhile {list : List α} (hsorted : list.Pairwise fun a b => key a < key b)
    {node a : α} (ha : a ∈ list.dropWhile fun cur => key cur < key node) :
    key node ≤ key a := by
  induction list with
  | nil => simp at ha
  | cons b list ih =>
    obtain ⟨hb, hsorted⟩ := List.pairwise_cons.mp hsorted
    by_cases hlt : key b < key node
    · rw [List.dropWhile_cons_of_pos (by simpa using hlt)] at ha
      exact ih hsorted ha
    · rw [List.dropWhile_cons_of_neg (by simpa using hlt)] at ha
      rcases List.mem_cons.mp ha with rfl | ha
      · exact not_lt.mp hlt
      · exact (not_lt.mp hlt).trans (hb a ha).le

theorem insertByKey_of_lt {l : Linked α} {first node : α} (hhead : l.list.head? = some first)
    (hlt : key node < key first) :
    l.insertByKey key node = ⟨l.hidden ++ [node], l.list⟩ := by
  obtain ⟨list, hlist⟩ := List.head?_eq_some_iff.mp hhead
  simp [insertByKey, insertBefore, hlist, hlt.le.not_gt, hlt.ne']

theorem insertByKey_of_mem {l : Linked α} (hsorted : l.list.Pairwise fun a b => key a < key b)
    {cur node : α} (hmem : cur ∈ l.list) (hkey : key cur = key node) :
    l.insertByKey key node = l := by
  have hrest : cur ∈ l.list.dropWhile fun cur => key cur < key node := by
    rw [← List.takeWhile_append_dropWhile (p := fun cur => key cur < key node) (l := l.list),
      List.mem_append] at hmem
    refine hmem.resolve_left fun h => ?_
    have := List.mem_takeWhile_imp h
    simp [hkey] at this
  -- The first node that is not passed is the one with the key: another would be smaller.
  cases hdrop : l.list.dropWhile fun cur => key cur < key node with
  | nil => simp [hdrop] at hrest
  | cons b rest =>
    have hle : key node ≤ key b := le_of_mem_dropWhile hsorted (by rw [hdrop]; simp)
    have hb : key b = key node := by
      have hsub := hsorted.sublist (List.dropWhile_sublist fun cur => key cur < key node)
      rw [hdrop] at hsub hrest
      rcases List.mem_cons.mp hrest with rfl | hrest
      · exact hkey
      · have := (List.pairwise_cons.mp hsub).1 cur hrest
        exact absurd (hle.trans_lt this) (by simp [hkey])
    simp [insertByKey, hdrop, hb]

/-- A new key above the first one's is put in its place. -/
theorem insertByKey_of_not_mem {l : Linked α} {node : α}
    (hhead : ∀ first ∈ l.list.head?, key first ≤ key node)
    (hnew : ∀ cur ∈ l.list, key cur ≠ key node) :
    l.insertByKey key node = ⟨l.hidden, l.list.takeWhile (fun cur => key cur < key node) ++
      node :: l.list.dropWhile (fun cur => key cur < key node)⟩ := by
  have hany : (l.list.dropWhile fun cur => key cur < key node).head?.any
      (fun cur => key cur = key node) = false := by
    rw [Option.any_eq_false]
    intro cur hcur
    simpa using hnew cur (List.dropWhile_sublist _ |>.subset (List.mem_of_mem_head? hcur))
  simp only [insertByKey, hany, Bool.false_eq_true, if_false, insertBefore]
  split
  · simp [*]
  · rw [if_neg]
    intro hpassed
    cases hlist : l.list with
    | nil => simp_all
    | cons first list =>
      have hlt := lt_of_le_of_ne (hhead first (by simp [hlist])) (hnew first (by simp [hlist]))
      simp [hlist, hlt] at hpassed

theorem Collected.insertByKey_nil {l : Linked α} (h : Collected key [] l) (node : α) :
    Collected key [node] (l.insertByKey key node) := by
  have hlist : l.list = [] := by simpa using h.head
  rw [insertByKey_of_not_mem (by simp [hlist]) (by simp [hlist])]
  refine ⟨by simp [hlist], by simp [hlist], by simp [h.hidden], fun a => ?_⟩
  constructor
  · intro ha
    obtain rfl : a = node := by simpa [hlist] using ha
    simp
  · intro ha
    simp only [hlist] at ha ⊢
    grind

theorem mem_inserted (list : List α) (node a : α) :
    a ∈ list.takeWhile (fun cur => key cur < key node) ++
        node :: list.dropWhile (fun cur => key cur < key node) ↔ a = node ∨ a ∈ list := by
  conv_rhs => rw [← List.takeWhile_append_dropWhile (p := fun cur => key cur < key node)
    (l := list)]
  simp only [List.mem_append, List.mem_cons]
  tauto

theorem pairwise_inserted {list : List α} (hsorted : list.Pairwise fun a b => key a < key b)
    {node : α} (hnew : ∀ cur ∈ list, key cur ≠ key node) :
    (list.takeWhile (fun cur => key cur < key node) ++ node ::
      list.dropWhile (fun cur => key cur < key node)).Pairwise fun a b => key a < key b := by
  have hbelow : ∀ a ∈ list.takeWhile (fun cur => key cur < key node), key a < key node :=
    fun a ha => by simpa using List.mem_takeWhile_imp ha
  have habove : ∀ a ∈ list.dropWhile (fun cur => key cur < key node), key node < key a :=
    fun a ha => lt_of_le_of_ne (le_of_mem_dropWhile hsorted ha)
      (hnew a ((List.dropWhile_sublist _).subset ha)).symm
  rw [List.pairwise_append, List.pairwise_cons]
  refine ⟨hsorted.sublist (List.takeWhile_sublist _), ⟨habove, ?_⟩, ?_⟩
  · exact hsorted.sublist (List.dropWhile_sublist _)
  · intro a ha b hb
    rcases List.mem_cons.mp hb with rfl | hb
    · exact hbelow a ha
    · exact (hbelow a ha).trans (habove b hb)

theorem find_concat_iff (nodes : List α) (node a : α) :
    (nodes ++ [node]).find? (fun b => key b = key a) = some a ↔
      nodes.find? (fun b => key b = key a) = some a ∨
        (∀ b ∈ nodes, key b ≠ key a) ∧ node = a := by
  rw [List.find?_append, Option.or_eq_some_iff]
  refine or_congr_right (and_congr (by simp) ?_)
  constructor
  · intro h
    exact (List.mem_singleton.mp (List.mem_of_find?_eq_some h)).symm
  · rintro rfl
    simp

theorem Collected.insertByKey {nodes : List α} {l : Linked α}
    (h : Collected key nodes l) (node : α) :
    Collected key (nodes ++ [node]) (l.insertByKey key node) := by
  rcases nodes with _ | ⟨first, nodes⟩
  · exact h.insertByKey_nil node
  have hhead : l.list.head? = some first := h.head
  have hmem : ∀ a, a ∈ l.list ↔
      (first :: nodes).find? (fun b => key b = key a) = some a ∧ key first ≤ key a := by
    simpa using h.mem
  have hhidden : l.hidden = (first :: nodes).filter fun a => key a < key first := by
    simpa using h.hidden
  by_cases hold : ∃ cur ∈ l.list, key cur = key node
  · obtain ⟨cur, hcur, hkey⟩ := hold
    rw [insertByKey_of_mem h.sorted hcur hkey]
    have hcur := (hmem cur).mp hcur
    have hin := List.mem_of_find?_eq_some hcur.1
    refine ⟨h.sorted, hhead, ?_, fun a => ?_⟩
    · rw [hhidden, List.filter_append]
      simp [← hkey, hcur.2]
    · rw [hmem, find_concat_iff]
      grind
  by_cases hlt : key node < key first
  · rw [insertByKey_of_lt hhead hlt]
    refine ⟨h.sorted, hhead, ?_, fun a => ?_⟩
    · rw [hhidden, List.filter_append]
      simp [hlt]
    · rw [hmem, find_concat_iff]
      grind
  have hle : key first ≤ key node := not_lt.mp hlt
  have hnew : ∀ cur ∈ l.list, key cur ≠ key node := by simpa using hold
  rw [insertByKey_of_not_mem (by simpa [hhead] using hlt) hnew]
  refine ⟨pairwise_inserted h.sorted hnew, ?_, ?_, fun a => ?_⟩
  · obtain ⟨list, hlist⟩ := List.head?_eq_some_iff.mp hhead
    have hlt := lt_of_le_of_ne hle (hnew first (by simp [hlist]))
    simp [hlist, hlt]
  · rw [hhidden, List.filter_append]
    simpa using hlt
  · -- A key that is not in the list and not below the first one was never inserted.
    have hfresh : ∀ b ∈ first :: nodes, key b ≠ key node := by
      intro b hb hkey
      obtain ⟨c, hc⟩ : ∃ c, (first :: nodes).find? (fun b => key b = key node) = some c :=
        Option.isSome_iff_exists.mp (List.find?_isSome.mpr ⟨b, hb, by simpa using hkey⟩)
      have hck : key c = key node := by simpa using List.find?_some hc
      exact hnew c ((hmem c).mpr ⟨by rw [hck]; exact hc, hck ▸ hle⟩) hck
    rw [find_concat_iff, mem_inserted, hmem]
    grind

/-- The list after any insertions, from the empty one. -/
theorem collected_foldl (nodes : List α) :
    Collected key nodes (nodes.foldl (insertByKey key) {}) := by
  induction nodes using List.reverseRecOn with
  | nil => constructor <;> simp
  | append_singleton nodes node ih =>
    rw [List.foldl_append, List.foldl_cons, List.foldl_nil]
    exact ih.insertByKey node

end Linked

end CarFi.Library

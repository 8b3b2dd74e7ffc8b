import Mathlib.Data.List.Basic

/-!
# Doubly linked lists

The nodes of a doubly linked list name the node above and the node below them. `Chain` says that
the links run through a list of nodes in both directions. Taking a node out (`Chain.unlink`) and
putting one on top (`Chain.linkAtHead`) change the links of the neighbours only.
-/

namespace Cascette.Lib

open List Option

variable {ι : Type}

structure Links (ι : Type) where
  up : ι → Option ι
  down : ι → Option ι

namespace Links

/-- The links run through the nodes, from `above` to `below`. -/
def Chain (links : Links ι) : Option ι → List ι → Option ι → Prop
  | _, [], _ => True
  | above, x :: nodes, below =>
    links.up x = above ∧ links.down x = nodes.head?.or below ∧ links.Chain (some x) nodes below

/-- The nodes that are met on the way down. -/
def Walk (links : Links ι) : Option ι → List ι → Prop
  | start, [] => start = none
  | start, x :: nodes => start = some x ∧ links.Walk (links.down x) nodes

variable {nodes : List ι} {above below : Option ι} {links' : Links ι} {x : ι}

theorem Walk.unique {links : Links ι} {start : Option ι} {nodes' : List ι}
    (h : links.Walk start nodes) (h' : links.Walk start nodes') : nodes = nodes' := by
  induction nodes generalizing start nodes' with
  | nil =>
    cases nodes' with
    | nil => rfl
    | cons x nodes' => exact absurd (h.symm.trans h'.1) nofun
  | cons x nodes ih =>
    cases nodes' with
    | nil => exact absurd (h'.symm.trans h.1) nofun
    | cons y nodes' =>
      cases h.1.symm.trans h'.1
      rw [ih h.2 h'.2]

variable {links : Links ι}

theorem Chain.walk (h : links.Chain above nodes none) : links.Walk nodes.head? nodes := by
  induction nodes generalizing above with
  | nil => rfl
  | cons x nodes ih =>
    refine ⟨rfl, ?_⟩
    rw [h.2.1, or_none]
    exact ih h.2.2

theorem Chain.congr (h : links.Chain above nodes below)
    (hEq : ∀ x ∈ nodes, links'.up x = links.up x ∧ links'.down x = links.down x) :
    links'.Chain above nodes below := by
  induction nodes generalizing above with
  | nil => trivial
  | cons x nodes ih =>
    obtain ⟨hUp, hDown⟩ := hEq x mem_cons_self
    exact ⟨hUp.trans h.1, hDown.trans h.2.1, ih h.2.2 fun y hy => hEq y (mem_cons_of_mem x hy)⟩

theorem chain_append {others : List ι} :
    links.Chain above (nodes ++ others) below ↔
      links.Chain above nodes (others.head?.or below) ∧
        links.Chain (nodes.getLast?.or above) others below := by
  induction nodes generalizing above with
  | nil => exact ⟨fun h => ⟨trivial, h⟩, fun h => h.2⟩
  | cons x nodes ih =>
    have hHead : (nodes ++ others).head?.or below = nodes.head?.or (others.head?.or below) := by
      rw [head?_append, Option.or_assoc]
    have hLast : (x :: nodes).getLast?.or above = nodes.getLast?.or (some x) := by
      rw [getLast?_cons]
      cases nodes.getLast? <;> rfl
    rw [cons_append, Chain, Chain, ih, hHead, hLast, and_assoc, and_assoc]

theorem Chain.setBelow {below' : Option ι} (h : links.Chain above nodes below)
    (hUp : ∀ x ∈ nodes, links'.up x = links.up x)
    (hDown : ∀ x ∈ nodes, nodes.getLast? ≠ some x → links'.down x = links.down x)
    (hLast : ∀ x, nodes.getLast? = some x → links'.down x = below') (hNodup : nodes.Nodup) :
    links'.Chain above nodes below' := by
  induction nodes generalizing above with
  | nil => trivial
  | cons x nodes ih =>
    have hx := hUp x mem_cons_self
    cases nodes with
    | nil => exact ⟨hx.trans h.1, hLast x rfl, trivial⟩
    | cons y nodes =>
      have hNot := (nodup_cons.mp hNodup).1
      have hTail : (x :: y :: nodes).getLast? = (y :: nodes).getLast? := getLast?_cons_cons
      refine ⟨hx.trans h.1, ?_, ih h.2.2 (fun z hz => hUp z (mem_cons_of_mem x hz))
        (fun z hz => hDown z (mem_cons_of_mem x hz)) hLast (nodup_cons.mp hNodup).2⟩
      refine (hDown x mem_cons_self fun hEq => ?_).trans h.2.1
      exact hNot (mem_of_getLast? hEq)

theorem Chain.setAbove {above' : Option ι} (h : links.Chain above nodes below)
    (hDown : ∀ x ∈ nodes, links'.down x = links.down x)
    (hUp : ∀ x ∈ nodes, nodes.head? ≠ some x → links'.up x = links.up x)
    (hHead : ∀ x, nodes.head? = some x → links'.up x = above') (hNodup : nodes.Nodup) :
    links'.Chain above' nodes below := by
  cases nodes with
  | nil => trivial
  | cons x nodes =>
    have hNot := (nodup_cons.mp hNodup).1
    refine ⟨hHead x rfl, (hDown x mem_cons_self).trans h.2.1, h.2.2.congr fun y hy => ?_⟩
    refine ⟨hUp y (mem_cons_of_mem x hy) fun hEq => ?_, hDown y (mem_cons_of_mem x hy)⟩
    cases hEq
    exact hNot hy

theorem Chain.neighbours {before after : List ι} (h : links.Chain none
    (before ++ x :: after) none) :
    links.up x = before.getLast? ∧ links.down x = after.head? := by
  obtain ⟨-, hUp, hDown, -⟩ := chain_append.mp h
  exact ⟨hUp.trans or_none, hDown.trans or_none⟩

variable [DecidableEq ι]

/-- The neighbours of a node are linked to each other. -/
def unlink (links : Links ι) (x : ι) : Links ι where
  up y := if y = x then none else if links.down x = some y then links.up x else links.up y
  down y := if y = x then none else if links.up x = some y then links.down x else links.down y

/-- A node is put above the head. -/
def linkAtHead (links : Links ι) (head : Option ι) (x : ι) : Links ι where
  up y := if head = some y then some x else if y = x then none else links.up y
  down y := if y = x then head else links.down y

theorem Chain.unlink {before after : List ι} (h : links.Chain none (before ++ x :: after) none)
    (hNodup : (before ++ x :: after).Nodup) :
    (links.unlink x).Chain none (before ++ after) none := by
  obtain ⟨hUp, hDown⟩ := h.neighbours
  obtain ⟨hBefore, -, -, hAfter⟩ := chain_append.mp h
  obtain ⟨hNodupBefore, hNodupAfter, hApart⟩ := nodup_append.mp hNodup
  have hNotBefore : ∀ y ∈ before, y ≠ x := fun y hy => hApart y hy x mem_cons_self
  have hNotAfter : ∀ y ∈ after, y ≠ x := by
    rintro y hy rfl
    exact (nodup_cons.mp hNodupAfter).1 hy
  have hOther : ∀ y ∈ before, after.head? ≠ some y := fun y hy hHead =>
    hApart y hy y (mem_cons_of_mem x (mem_of_mem_head? hHead)) rfl
  have hOther' : ∀ y ∈ after, before.getLast? ≠ some y := fun y hy hLast =>
    hApart y (mem_of_getLast? hLast) y (mem_cons_of_mem x hy) rfl
  refine chain_append.mpr ⟨hBefore.setBelow ?_ ?_ ?_ hNodupBefore,
    hAfter.setAbove ?_ ?_ ?_ (nodup_cons.mp hNodupAfter).2⟩
  · intro y hy
    rw [Links.unlink, hDown]
    exact (if_neg (hNotBefore y hy)).trans (if_neg (hOther y hy))
  · intro y hy hLast
    rw [Links.unlink, hUp]
    exact (if_neg (hNotBefore y hy)).trans (if_neg hLast)
  · intro y hLast
    rw [Links.unlink, hUp, hDown, or_none]
    exact (if_neg (hNotBefore y (mem_of_getLast? hLast))).trans (if_pos hLast)
  · intro y hy
    rw [Links.unlink, hUp]
    exact (if_neg (hNotAfter y hy)).trans (if_neg (hOther' y hy))
  · intro y hy hHead
    rw [Links.unlink, hDown]
    exact (if_neg (hNotAfter y hy)).trans (if_neg hHead)
  · intro y hHead
    rw [Links.unlink, hUp, hDown, or_none]
    exact (if_neg (hNotAfter y (mem_of_mem_head? hHead))).trans (if_pos hHead)

theorem Chain.linkAtHead (h : links.Chain none nodes none) (hNodup : (x :: nodes).Nodup) :
    (links.linkAtHead nodes.head? x).Chain none (x :: nodes) none := by
  obtain ⟨hNot, hNodup⟩ := nodup_cons.mp hNodup
  have hNe : ∀ y ∈ nodes, y ≠ x := by
    rintro y hy rfl
    exact hNot hy
  refine ⟨?_, ?_, h.setAbove ?_ ?_ ?_ hNodup⟩
  · refine (if_neg fun hHead => ?_).trans (if_pos rfl)
    exact hNot (mem_of_mem_head? hHead)
  · exact (if_pos rfl).trans or_none.symm
  · exact fun y hy => if_neg (hNe y hy)
  · exact fun y hy hHead => (if_neg hHead).trans (if_neg (hNe y hy))
  · exact fun y hHead => if_pos hHead

end Links

end Cascette.Lib

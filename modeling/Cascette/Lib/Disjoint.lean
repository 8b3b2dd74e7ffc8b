import Mathlib

/-!
# Pieces that share nothing

A collection of pieces of some space. Pieces can be cut up, put together and given back as long as
what comes in their place lies inside of what was taken away (`DisjointPieces.replace`). -/

namespace Cascette.Lib

variable {α β : Type} (bytes : α → Set β)

/-- No two of the pieces have a byte in common. -/
def DisjointPieces (pieces : List α) : Prop :=
  pieces.Pairwise fun a b => Disjoint (bytes a) (bytes b)

variable {bytes}

theorem DisjointPieces.perm {pieces pieces' : List α} (h : DisjointPieces bytes pieces)
    (hPerm : pieces.Perm pieces') : DisjointPieces bytes pieces' :=
  List.Pairwise.perm h hPerm fun hab => hab.symm

theorem disjointPieces_append {pieces others : List α} :
    DisjointPieces bytes (pieces ++ others) ↔ DisjointPieces bytes pieces ∧
      DisjointPieces bytes others ∧ ∀ a ∈ pieces, ∀ b ∈ others, Disjoint (bytes a) (bytes b) :=
  List.pairwise_append

theorem DisjointPieces.replace {taken new kept : List α}
    (h : DisjointPieces bytes (taken ++ kept)) (hNew : DisjointPieces bytes new)
    (hInside : ∀ a ∈ new, ∀ x ∈ bytes a, ∃ b ∈ taken, x ∈ bytes b) :
    DisjointPieces bytes (new ++ kept) := by
  obtain ⟨-, hKept, hApart⟩ := disjointPieces_append.mp h
  refine disjointPieces_append.mpr ⟨hNew, hKept, fun a ha c hc => ?_⟩
  rw [Set.disjoint_left]
  intro x hx hxc
  obtain ⟨b, hb, hxb⟩ := hInside a ha x hx
  exact Set.disjoint_left.mp (hApart b hb c hc) hxb hxc

theorem DisjointPieces.sublist {pieces pieces' : List α} (h : DisjointPieces bytes pieces')
    (hSub : pieces.Sublist pieces') : DisjointPieces bytes pieces :=
  List.Pairwise.sublist hSub h

end Cascette.Lib

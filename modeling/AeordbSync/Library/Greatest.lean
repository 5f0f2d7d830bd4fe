import Mathlib.Order.Bounds.Basic
import Mathlib.Data.Set.Lattice

namespace Greatest

variable {α ι : Type} [Preorder α] {whole rest : Set α} {piece : ι → Set α}

/-- The greatest members of the pieces. -/
def tops (piece : ι → Set α) : Set α := {top | ∃ i, IsGreatest (piece i) top}

/-- The greatest member of a set is the greatest among those of its pieces and what is in none of them. -/
theorem isGreatest_pieces (cover : whole = rest ∪ ⋃ i, piece i) {top : α}
    (greatest : IsGreatest whole top) : IsGreatest (rest ∪ tops piece) top := by
  obtain ⟨inside, above⟩ := greatest
  constructor
  · rw [cover] at inside
    cases inside with
    | inl left => exact Or.inl left
    | inr right =>
        obtain ⟨i, member⟩ := Set.mem_iUnion.mp right
        refine Or.inr ⟨i, member, ?_⟩
        intro other present
        exact above (cover ▸ Or.inr (Set.mem_iUnion.mpr ⟨i, present⟩))
  · intro other present
    cases present with
    | inl left => exact above (cover ▸ Or.inl left)
    | inr right =>
        obtain ⟨i, member, -⟩ := right
        exact above (cover ▸ Or.inr (Set.mem_iUnion.mpr ⟨i, member⟩))

end Greatest

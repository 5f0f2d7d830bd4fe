import Mathlib.Data.List.Infix

namespace Prefixes

variable {ι α : Type}

/-- The prefixes of one list form a chain, so some prefix among finitely many extends all others. -/
theorem exists_longest (root : ι → List α) {xs : List ι} {path : List α}
    (covered : ∃ x ∈ xs, root x <+: path) :
    ∃ x ∈ xs, root x <+: path ∧ ∀ y ∈ xs, root y <+: path → root y <+: root x := by
  induction xs with
  | nil =>
      obtain ⟨x, inside, -⟩ := covered
      cases inside
  | cons first rest ih =>
      by_cases later : ∃ x ∈ rest, root x <+: path
      · obtain ⟨x, inside, above, longest⟩ := ih later
        by_cases here : root first <+: path
        · rcases List.prefix_or_prefix_of_prefix here above with shorter | longer
          · refine ⟨x, List.mem_cons_of_mem _ inside, above, fun y among below => ?_⟩
            rcases List.mem_cons.mp among with rfl | other
            · exact shorter
            · exact longest y other below
          · refine ⟨first, List.mem_cons_self .., here, fun y among below => ?_⟩
            rcases List.mem_cons.mp among with rfl | other
            · exact List.prefix_refl _
            · exact (longest y other below).trans longer
        · refine ⟨x, List.mem_cons_of_mem _ inside, above, fun y among below => ?_⟩
          rcases List.mem_cons.mp among with rfl | other
          · exact absurd below here
          · exact longest y other below
      · obtain ⟨x, inside, above⟩ := covered
        have same : x = first := by
          rcases List.mem_cons.mp inside with equal | other
          · exact equal
          · exact absurd ⟨x, other, above⟩ later
        subst same
        refine ⟨x, inside, above, fun y among below => ?_⟩
        rcases List.mem_cons.mp among with rfl | other
        · exact List.prefix_refl _
        · exact absurd ⟨y, other, below⟩ later

end Prefixes

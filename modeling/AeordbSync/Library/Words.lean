import AeordbSync.Library.Characters

namespace Characters

variable {α : Type} {word front back : List α}

/-- A word that does not have the first item of the second part lies in one of the parts. -/
theorem infix_append_of_first (apart : ∀ c, back.head? = some c → c ∉ word) :
    word <:+: front ++ back ↔ word <:+: front ∨ word <:+: back := by
  rw [List.infix_append_iff_ne_nil]
  constructor
  · rintro (left | right | ⟨start, rest, -, filled, rfl, -, more⟩)
    · exact Or.inl left
    · exact Or.inr right
    · exfalso
      cases rest with
      | nil => exact filled rfl
      | cons c rest =>
          obtain ⟨later, rfl⟩ := more
          exact apart c rfl (List.mem_append_right _ (List.mem_cons_self ..))
  · exact fun found => found.elim Or.inl fun right => Or.inr (Or.inl right)

/-- A word that does not have the last item of the first part lies in one of the parts. -/
theorem infix_append_of_last (apart : ∀ c, front.getLast? = some c → c ∉ word) :
    word <:+: front ++ back ↔ word <:+: front ∨ word <:+: back := by
  rw [← List.reverse_infix, List.reverse_append, infix_append_of_first, List.reverse_infix, List.reverse_infix, or_comm]
  intro c first
  rw [List.head?_reverse] at first
  exact fun inside => apart c first (List.mem_reverse.mp inside)

theorem contains_append_of_first {front back word : Text} (apart : ∀ c, back.head? = some c → c ∉ word) :
    contains (front ++ back) word = (contains front word || contains back word) := by
  unfold contains
  rw [← Bool.decide_or]
  exact decide_eq_decide.mpr (infix_append_of_first apart)

theorem contains_append_of_last {front back word : Text} (apart : ∀ c, front.getLast? = some c → c ∉ word) :
    contains (front ++ back) word = (contains front word || contains back word) := by
  unfold contains
  rw [← Bool.decide_or]
  exact decide_eq_decide.mpr (infix_append_of_last apart)

theorem toAsciiLowercase_append (front back : Text) :
    toAsciiLowercase (front ++ back) = toAsciiLowercase front ++ toAsciiLowercase back := List.map_append

end Characters

import Mathlib.Data.Set.Basic
import Mathlib.Logic.Relation
import Mathlib.Order.Defs.LinearOrder

namespace MixedOrder

variable {α β : Type} [LinearOrder α] [LinearOrder β] (value : α → Option β)

/-- The first comes after the second: by their values when both have one, and by themselves otherwise. -/
def After (left right : α) : Prop :=
  match value left, value right with
  | some x, some y => y < x
  | _, _ => right < left

/-- Equal values are told apart by the members themselves. -/
def Behind (left right : α) : Prop :=
  match value left, value right with
  | some x, some y => y < x ∨ y = x ∧ right < left
  | _, _ => right < left

/-- A member without a value lies between two members whose values are in the other order. -/
structure Crossed (low between high : α) : Prop where
  bare : value between = none
  above : low < between
  below : between < high
  reversed : ∃ x y, value low = some x ∧ value high = some y ∧ y < x

/-- A member without a value lies between two members of which the upper one has no greater value. -/
structure Tied (low between high : α) : Prop where
  bare : value between = none
  above : low < between
  below : between < high
  reversed : ∃ x y, value low = some x ∧ value high = some y ∧ y ≤ x

section

variable {value} {a b c left right : α} {x y : β}

theorem after_of_values (first : value left = some x) (second : value right = some y) :
    After value left right ↔ y < x := by
  simp [After, first, second]

theorem after_of_left (bare : value left = none) : After value left right ↔ right < left := by
  simp [After, bare]

theorem after_of_right (bare : value right = none) : After value left right ↔ right < left := by
  cases found : value left <;> simp [After, bare, found]

theorem behind_of_values (first : value left = some x) (second : value right = some y) :
    Behind value left right ↔ y < x ∨ y = x ∧ right < left := by
  simp [Behind, first, second]

theorem behind_of_left (bare : value left = none) : Behind value left right ↔ right < left := by
  simp [Behind, bare]

theorem behind_of_right (bare : value right = none) : Behind value left right ↔ right < left := by
  cases found : value left <;> simp [Behind, bare, found]

theorem after_irrefl (a : α) : ¬ After value a a := by
  cases found : value a with
  | none => simp [after_of_left found]
  | some x => simp [after_of_values found found]

theorem after_asymm (newer : After value a b) : ¬ After value b a := by
  cases first : value a with
  | none =>
      rw [after_of_left first] at newer
      rw [after_of_right first]
      exact lt_asymm newer
  | some x =>
      cases second : value b with
      | none =>
          rw [after_of_right second] at newer
          rw [after_of_left second]
          exact lt_asymm newer
      | some y =>
          rw [after_of_values first second] at newer
          rw [after_of_values second first]
          exact lt_asymm newer

theorem behind_irrefl (a : α) : ¬ Behind value a a := by
  cases found : value a with
  | none => simp [behind_of_left found]
  | some x => simp [behind_of_values found found]

theorem After.behind (newer : After value a b) : Behind value a b := by
  cases first : value a with
  | none => exact (behind_of_left first).mpr ((after_of_left first).mp newer)
  | some x =>
      cases second : value b with
      | none => exact (behind_of_right second).mpr ((after_of_right second).mp newer)
      | some y => exact (behind_of_values first second).mpr (Or.inl ((after_of_values first second).mp newer))

/-- Three members can be out of order only when exactly one of them has no value. -/
theorem after_trans_iff :
    (After value a b → After value b c → After value a c) ↔
      ¬ Crossed value a c b ∧ ¬ Crossed value b a c ∧ ¬ Tied value c b a := by
  constructor
  · intro chain
    refine ⟨?_, ?_, ?_⟩
    · intro crossed
      obtain ⟨x, y, first, second, reversed⟩ := crossed.reversed
      have step := chain ((after_of_values first second).mpr reversed)
        ((after_of_right crossed.bare).mpr crossed.below)
      exact lt_asymm crossed.above ((after_of_right crossed.bare).mp step)
    · intro crossed
      obtain ⟨x, y, first, second, reversed⟩ := crossed.reversed
      have step := chain ((after_of_left crossed.bare).mpr crossed.above)
        ((after_of_values first second).mpr reversed)
      exact lt_asymm crossed.below ((after_of_left crossed.bare).mp step)
    · intro tied
      obtain ⟨x, y, first, second, reversed⟩ := tied.reversed
      have step := chain ((after_of_right tied.bare).mpr tied.below) ((after_of_left tied.bare).mpr tied.above)
      exact not_lt_of_ge reversed ((after_of_values second first).mp step)
  · intro ⟨free, free', open'⟩ newer older
    cases first : value a with
    | none =>
        rw [after_of_left first] at newer ⊢
        cases second : value b with
        | none => exact lt_trans ((after_of_left second).mp older) newer
        | some y =>
            cases third : value c with
            | none => exact lt_trans ((after_of_right third).mp older) newer
            | some z =>
                rw [after_of_values second third] at older
                by_contra stays
                have above : a < c := lt_of_le_of_ne (not_lt.mp stays) fun same => by
                  rw [same, third] at first
                  cases first
                exact free' ⟨first, newer, above, y, z, second, third, older⟩
    | some x =>
        cases second : value b with
        | none =>
            rw [after_of_right second] at newer
            rw [after_of_left second] at older
            cases third : value c with
            | none => exact (after_of_right third).mpr (lt_trans older newer)
            | some z =>
                rw [after_of_values first third]
                by_contra stays
                exact open' ⟨second, older, newer, z, x, third, first, not_lt.mp stays⟩
        | some y =>
            rw [after_of_values first second] at newer
            cases third : value c with
            | none =>
                rw [after_of_right third] at older ⊢
                by_contra stays
                have above : a < c := lt_of_le_of_ne (not_lt.mp stays) fun same => by
                  rw [same, third] at first
                  cases first
                exact free ⟨third, above, older, x, y, first, second, newer⟩
            | some z =>
                rw [after_of_values second third] at older
                exact (after_of_values first third).mpr (lt_trans older newer)

/-- Without crossed members the finer order is a transitive one. -/
theorem behind_trans (free : ¬ Crossed value a c b) (free' : ¬ Crossed value b a c) (free'' : ¬ Crossed value c b a)
    (newer : Behind value a b) (older : Behind value b c) : Behind value a c := by
  cases first : value a with
  | none =>
      rw [behind_of_left first] at newer ⊢
      cases second : value b with
      | none => exact lt_trans ((behind_of_left second).mp older) newer
      | some y =>
          cases third : value c with
          | none => exact lt_trans ((behind_of_right third).mp older) newer
          | some z =>
              rw [behind_of_values second third] at older
              cases older with
              | inr tied => exact lt_trans tied.2 newer
              | inl less =>
                  by_contra stays
                  have above : a < c := lt_of_le_of_ne (not_lt.mp stays) fun same => by
                    rw [same, third] at first
                    cases first
                  exact free' ⟨first, newer, above, y, z, second, third, less⟩
  | some x =>
      cases second : value b with
      | none =>
          rw [behind_of_right second] at newer
          rw [behind_of_left second] at older
          cases third : value c with
          | none => exact (behind_of_right third).mpr (lt_trans older newer)
          | some z =>
              rw [behind_of_values first third]
              cases lt_trichotomy z x with
              | inl less => exact Or.inl less
              | inr rest =>
                  cases rest with
                  | inl same => exact Or.inr ⟨same, lt_trans older newer⟩
                  | inr greater => exact absurd ⟨second, older, newer, z, x, third, first, greater⟩ free''
      | some y =>
          rw [behind_of_values first second] at newer
          cases third : value c with
          | none =>
              rw [behind_of_right third] at older ⊢
              cases newer with
              | inr tied => exact lt_trans older tied.2
              | inl less =>
                  by_contra stays
                  have above : a < c := lt_of_le_of_ne (not_lt.mp stays) fun same => by
                    rw [same, third] at first
                    cases first
                  exact free ⟨third, above, older, x, y, first, second, less⟩
          | some z =>
              rw [behind_of_values second third] at older
              rw [behind_of_values first third]
              cases newer with
              | inl less =>
                  cases older with
                  | inl less' => exact Or.inl (lt_trans less' less)
                  | inr tied' => exact Or.inl (tied'.1 ▸ less)
              | inr tied =>
                  cases older with
                  | inl less' => exact Or.inl (tied.1 ▸ less')
                  | inr tied' => exact Or.inr ⟨tied'.1.trans tied.1, lt_trans tied'.2 tied.2⟩

end

/-- One step goes from a member to a later one among the given members. -/
def Advance (members : Set α) (current next : α) : Prop := next ∈ members ∧ After value next current

variable {value} {members : Set α}

theorem advance_behind (free : ∀ low ∈ members, ∀ between ∈ members, ∀ high ∈ members, ¬ Crossed value low between high)
    {first last : α} (inside : first ∈ members) (path : Relation.TransGen (Advance value members) first last) :
    last ∈ members ∧ Behind value last first := by
  induction path with
  | single step => exact ⟨step.1, step.2.behind⟩
  | tail earlier step ih =>
      refine ⟨step.1, ?_⟩
      exact behind_trans (free _ step.1 _ inside _ ih.1) (free _ ih.1 _ step.1 _ inside)
        (free _ inside _ ih.1 _ step.1) step.2.behind ih.2

/-- There is a cycle of steps exactly when three of the members form one. -/
theorem advance_cycle_iff :
    (∀ member, ¬ Relation.TransGen (Advance value members) member member) ↔
      ∀ low ∈ members, ∀ between ∈ members, ∀ high ∈ members, ¬ Crossed value low between high := by
  constructor
  · intro none low lowIn between betweenIn high highIn crossed
    obtain ⟨x, y, first, second, reversed⟩ := crossed.reversed
    have up : Advance value members low between := ⟨betweenIn, (after_of_left crossed.bare).mpr crossed.above⟩
    have on : Advance value members between high := ⟨highIn, (after_of_right crossed.bare).mpr crossed.below⟩
    have back : Advance value members high low := ⟨lowIn, (after_of_values first second).mpr reversed⟩
    exact none low (((Relation.TransGen.single up).tail on).tail back)
  · intro free member cycle
    have inside : member ∈ members := by
      cases cycle with
      | single step => exact step.1
      | tail _ step => exact step.1
    exact behind_irrefl member (advance_behind free inside cycle).2

end MixedOrder

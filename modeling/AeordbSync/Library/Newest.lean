import Mathlib.Data.List.Sort
import Mathlib.Data.List.Nodup

namespace Newest

variable {α κ : Type} [LinearOrder κ] (key : α → κ)

/-- The greatest keys come first. -/
def descending (l : List α) : List α := l.insertionSort fun a b => key b ≤ key a

/-- The first elements in descending order. -/
def newest (n : Nat) (l : List α) : List α := (descending key l).take n

/-- How many elements come before the given one. -/
def newer (l : List α) (x : α) : Nat := l.countP fun y => decide (key x < key y)

variable {key} {l m : List α} {x : α} {n : Nat}

theorem descending_perm (l : List α) : (descending key l).Perm l := List.perm_insertionSort _ l

theorem mem_descending : x ∈ descending key l ↔ x ∈ l := (descending_perm l).mem_iff

theorem pairwise_descending (distinct : (l.map key).Nodup) :
    (descending key l).Pairwise fun a b => key b < key a := by
  have : Std.Total fun a b : α => key b ≤ key a := ⟨fun a b => le_total (key b) (key a)⟩
  have : IsTrans α fun a b => key b ≤ key a := ⟨fun _ _ _ first second => second.trans first⟩
  have ordered : (descending key l).Pairwise fun a b => key b ≤ key a := List.pairwise_insertionSort _ l
  have apart : (descending key l).Pairwise fun a b => key a ≠ key b :=
    List.pairwise_map.mp (((descending_perm l).map key).nodup_iff.mpr distinct)
  apply (ordered.and apart).imp
  rintro a b ⟨below, different⟩
  exact lt_of_le_of_ne below different.symm

theorem pairwise_newest (distinct : (l.map key).Nodup) : (newest key n l).Pairwise fun a b => key b < key a :=
  (pairwise_descending distinct).sublist (List.take_sublist n _)

theorem newest_sublist (n : Nat) (l : List α) : (newest key n l).Sublist (descending key l) := List.take_sublist n _

theorem mem_of_mem_newest (inside : x ∈ newest key n l) : x ∈ l := mem_descending.mp ((newest_sublist n l).subset inside)

theorem length_newest (n : Nat) (l : List α) : (newest key n l).length = min n l.length := by
  rw [newest, List.length_take, (descending_perm l).length_eq]

theorem newer_perm (same : l.Perm m) (x : α) : newer key l x = newer key m x := same.countP_eq _

theorem newer_append (l m : List α) (x : α) : newer key (l ++ m) x = newer key l x + newer key m x :=
  List.countP_append

/-- Nothing in the list comes before its head. -/
theorem newer_head {a : α} {rest : List α} (ordered : (a :: rest).Pairwise fun a b => key b < key a)
    (late : key a ≤ key x) : newer key (a :: rest) x = 0 := by
  apply List.countP_eq_zero.mpr
  intro y inside
  have below : key y ≤ key a := by
    rcases List.mem_cons.mp inside with rfl | later
    · exact le_rfl
    · exact (List.rel_of_pairwise_cons ordered later).le
  simp only [decide_eq_true_eq, not_lt]
  exact below.trans late

/-- The first elements of an ordered list are those before which there are few. -/
theorem mem_take_iff (ordered : l.Pairwise fun a b => key b < key a) :
    x ∈ l.take n ↔ x ∈ l ∧ newer key l x < n := by
  induction l generalizing n with
  | nil => simp
  | cons a rest ih =>
      have later := ordered.of_cons
      cases n with
      | zero => simp
      | succ n =>
          rw [List.take_succ_cons, List.mem_cons, List.mem_cons, ih later]
          by_cases first : x = a
          · subst first
            simp only [true_or, true_and, true_iff]
            rw [newer_head ordered le_rfl]
            omega
          · simp only [first, false_or]
            apply and_congr_right
            intro inside
            have before : key x < key a := List.rel_of_pairwise_cons ordered inside
            have counted : newer key (a :: rest) x = newer key rest x + 1 :=
              List.countP_cons_of_pos (by simpa using before)
            omega

/-- The kept elements are those before which fewer than the limit come. -/
theorem mem_newest (distinct : (l.map key).Nodup) : x ∈ newest key n l ↔ x ∈ l ∧ newer key l x < n := by
  rw [newest, mem_take_iff (pairwise_descending distinct), mem_descending, newer_perm (descending_perm l)]

theorem newer_take (ordered : l.Pairwise fun a b => key b < key a) :
    newer key (l.take n) x = min n (newer key l x) := by
  induction l generalizing n with
  | nil => simp [newer]
  | cons a rest ih =>
      cases n with
      | zero => simp [newer]
      | succ n =>
          rw [List.take_succ_cons]
          by_cases before : key x < key a
          · have front : ∀ tail, newer key (a :: tail) x = newer key tail x + 1 :=
              fun tail => List.countP_cons_of_pos (by simpa using before)
            rw [front, front, ih ordered.of_cons]
            omega
          · have kept : (a :: rest.take n).Pairwise fun a b => key b < key a :=
              ordered.sublist ((List.take_sublist n rest).cons_cons a)
            rw [newer_head kept (not_lt.mp before), newer_head ordered (not_lt.mp before)]
            omega

/-- Below the limit the kept elements count like all of them. -/
theorem newer_newest (distinct : (l.map key).Nodup) : newer key (newest key n l) x = min n (newer key l x) := by
  rw [newest, newer_take (pairwise_descending distinct), newer_perm (descending_perm l)]

/-- Two descending lists of the same elements are the same. -/
theorem eq_of_mem_iff (left : l.Pairwise fun a b => key b < key a) (right : m.Pairwise fun a b => key b < key a)
    (same : ∀ x, x ∈ l ↔ x ∈ m) : l = m := by
  have : Std.Irrefl fun a b : α => key b < key a := ⟨fun a => lt_irrefl (key a)⟩
  have : Std.Antisymm fun a b : α => key b < key a := ⟨fun _ _ first second => absurd first second.asymm⟩
  exact left.eq_of_mem_iff right same

theorem nodup_newest (distinct : (l.map key).Nodup) : ((newest key n l).map key).Nodup :=
  List.pairwise_map.mpr ((pairwise_newest distinct).imp fun below => below.ne')

/-- Elements that a limit has removed would not have been among the first of a longer list. -/
theorem newest_append (distinct : ((l ++ m).map key).Nodup) :
    newest key n (newest key n l ++ m) = newest key n (l ++ m) := by
  have left : (l.map key).Nodup := by
    rw [List.map_append] at distinct
    exact distinct.of_append_left
  have kept : ((newest key n l ++ m).map key).Nodup := by
    have sorted : ((descending key l ++ m).map key).Nodup :=
      (((descending_perm l).append_right m).map key).nodup_iff.mpr distinct
    exact sorted.sublist (((newest_sublist n l).append (List.Sublist.refl m)).map key)
  apply eq_of_mem_iff (pairwise_newest kept) (pairwise_newest distinct)
  intro x
  rw [mem_newest kept, mem_newest distinct, newer_append, newer_append, newer_newest left, List.mem_append,
    List.mem_append, mem_newest left]
  constructor
  · rintro ⟨inside, few⟩
    refine ⟨inside.imp_left And.left, ?_⟩
    omega
  · rintro ⟨inside, few⟩
    refine ⟨inside.imp_left fun present => ⟨present, ?_⟩, ?_⟩ <;> omega

/-- A smaller limit after a larger one. -/
theorem newest_newest (distinct : (l.map key).Nodup) {few : Nat} (less : few ≤ n) :
    newest key few (newest key n l) = newest key few l := by
  have kept := nodup_newest (n := n) distinct
  apply eq_of_mem_iff (pairwise_newest kept) (pairwise_newest distinct)
  intro x
  rw [mem_newest kept, mem_newest distinct, newer_newest distinct, mem_newest distinct]
  constructor
  · rintro ⟨⟨inside, -⟩, first⟩
    refine ⟨inside, ?_⟩
    omega
  · rintro ⟨inside, first⟩
    refine ⟨⟨inside, ?_⟩, ?_⟩ <;> omega

end Newest

import Mathlib.Data.List.Induction
import Mathlib.Data.List.Nodup

namespace Firsts

variable {α κ : Type} [DecidableEq κ] {key : α → κ} {kept l : List α} {x : α} {k : κ}

/-- An element is kept when no element with its key was kept before. -/
def keep (key : α → κ) (kept : List α) (x : α) : List α :=
  if kept.any fun y => key y = key x then kept else kept ++ [x]

/-- The first element of each key, in the order of the list. -/
def firsts (key : α → κ) (l : List α) : List α := l.foldl (keep key) []

theorem any_key : (kept.any fun y => key y = key x) = true ↔ key x ∈ kept.map key := by
  simp

theorem keep_known (known : key x ∈ kept.map key) : keep key kept x = kept := if_pos (any_key.mpr known)

theorem keep_fresh (fresh : key x ∉ kept.map key) : keep key kept x = kept ++ [x] :=
  if_neg fun known => fresh (any_key.mp known)

theorem keys_keep : k ∈ (keep key kept x).map key ↔ k ∈ kept.map key ∨ k = key x := by
  by_cases known : key x ∈ kept.map key
  · rw [keep_known known]
    constructor
    · exact Or.inl
    · rintro (old | rfl)
      · exact old
      · exact known
  · rw [keep_fresh known, List.map_append, List.mem_append, List.map_singleton, List.mem_singleton]

theorem keys_foldl : k ∈ (l.foldl (keep key) kept).map key ↔ k ∈ kept.map key ∨ k ∈ l.map key := by
  induction l generalizing kept with
  | nil => simp
  | cons x rest ih => rw [List.foldl_cons, ih, keys_keep, List.map_cons, List.mem_cons, or_assoc]

/-- The kept elements have different keys. -/
theorem nodup_foldl (distinct : (kept.map key).Nodup) : ((l.foldl (keep key) kept).map key).Nodup := by
  induction l generalizing kept with
  | nil => exact distinct
  | cons x rest ih =>
      apply ih
      by_cases known : key x ∈ kept.map key
      · rwa [keep_known known]
      · rw [keep_fresh known, List.map_append, List.map_singleton, ← List.concat_eq_append]
        exact distinct.concat known

theorem mem_foldl (inside : x ∈ l.foldl (keep key) kept) : x ∈ kept ∨ x ∈ l := by
  induction l generalizing kept with
  | nil => exact .inl inside
  | cons y rest ih =>
      rcases ih inside with before | later
      · by_cases known : key y ∈ kept.map key
        · rw [keep_known known] at before
          exact .inl before
        · rw [keep_fresh known, List.mem_append, List.mem_singleton] at before
          rcases before with old | rfl
          · exact .inl old
          · exact .inr (.head _)
      · exact .inr (.tail _ later)

/-- Among elements with different keys a key finds its own element. -/
theorem find_own (distinct : (l.map key).Nodup) (inside : x ∈ l) :
    (l.find? fun y => key y = key x) = some x := by
  induction l with
  | nil => cases inside
  | cons y rest ih =>
      obtain ⟨fresh, apart⟩ := List.nodup_cons.mp distinct
      rcases List.mem_cons.mp inside with rfl | later
      · exact List.find?_cons_of_pos (decide_eq_true rfl)
      · have differs : key y ≠ key x := fun same => fresh (same ▸ List.mem_map_of_mem later)
        rw [List.find?_cons_of_neg (by simpa using differs)]
        exact ih apart later

/-- What was passed over once is passed over again. -/
theorem foldl_firsts (kept l : List α) : (firsts key l).foldl (keep key) kept = l.foldl (keep key) kept := by
  induction l using List.reverseRecOn with
  | nil => rfl
  | append_singleton front x ih =>
      have last : firsts key (front ++ [x]) = keep key (firsts key front) x := List.foldl_append
      rw [last, List.foldl_append, List.foldl_cons, List.foldl_nil]
      by_cases known : key x ∈ (firsts key front).map key
      · have later : key x ∈ (front.foldl (keep key) kept).map key := by
          rw [keys_foldl]
          have before := keys_foldl.mp known
          simp only [List.map_nil, List.not_mem_nil, false_or] at before
          exact .inr before
        rw [keep_known known, keep_known later, ih]
      · rw [keep_fresh known, List.foldl_append, ih]
        rfl

end Firsts

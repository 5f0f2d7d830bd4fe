import Mathlib.Logic.Function.Basic

namespace Locks

/-- A table of locks that are made when they are first asked for. No two keys share a lock. -/
structure Table (κ ω : Type) where
  refs : κ → Option Nat
  next : Nat
  holder : Nat → Option ω
  made : ∀ key ref, refs key = some ref → ref < next
  distinct : ∀ key other ref, refs key = some ref → refs other = some ref → key = other

namespace Table

variable {κ ω : Type}

def empty : Table κ ω where
  refs _ := none
  next := 0
  holder _ := none
  made := fun _ _ found => by cases found
  distinct := fun _ _ _ found => by cases found

def hold (table : Table κ ω) (ref : Nat) (owner : Option ω) : Table κ ω :=
  { table with holder := Function.update table.holder ref owner }

/-- A lock is taken only while it is free. -/
def acquire (table : Table κ ω) (ref : Nat) (owner : ω) : Option (Table κ ω) :=
  match table.holder ref with
  | some _ => none
  | none => some (table.hold ref (some owner))

def release (table : Table κ ω) (ref : Nat) : Table κ ω := table.hold ref none

variable {table : Table κ ω}

theorem acquire_eq_some {owner : ω} {ref : Nat} {after : Table κ ω} (taken : table.acquire ref owner = some after) :
    table.holder ref = none ∧ after = table.hold ref (some owner) := by
  unfold acquire at taken
  split at taken
  · cases taken
  next free =>
    cases taken
    exact ⟨free, rfl⟩

theorem acquire_eq_none {owner : ω} {ref : Nat} (refused : table.acquire ref owner = none) :
    ∃ other, table.holder ref = some other := by
  unfold acquire at refused
  split at refused
  next other held => exact ⟨other, held⟩
  · cases refused

variable [DecidableEq κ]

/-- The lock of a key. -/
def entry (table : Table κ ω) (key : κ) : Table κ ω × Nat :=
  match present : table.refs key with
  | some ref => (table, ref)
  | none =>
      ({ refs := Function.update table.refs key (some table.next)
         next := table.next + 1
         holder := table.holder
         made := by
           intro other ref found
           by_cases same : other = key
           · subst same
             rw [Function.update_self, Option.some.injEq] at found
             omega
           · rw [Function.update_of_ne same] at found
             have older := table.made other ref found
             omega
         distinct := by
           intro first second ref one two
           by_cases here : first = key
           · by_cases there : second = key
             · rw [here, there]
             · rw [here, Function.update_self, Option.some.injEq] at one
               rw [Function.update_of_ne there] at two
               have older := table.made second ref two
               omega
           · by_cases there : second = key
             · rw [there, Function.update_self, Option.some.injEq] at two
               rw [Function.update_of_ne here] at one
               have older := table.made first ref one
               omega
             · rw [Function.update_of_ne here] at one
               rw [Function.update_of_ne there] at two
               exact table.distinct first second ref one two }, table.next)

theorem entry_ref (table : Table κ ω) (key : κ) : (table.entry key).1.refs key = some (table.entry key).2 := by
  unfold entry
  split
  next ref present => exact present
  next absent => exact Function.update_self ..

theorem entry_refs {key other : κ} {ref : Nat} (found : table.refs other = some ref) :
    (table.entry key).1.refs other = some ref := by
  unfold entry
  split
  · exact found
  next absent =>
    have differs : other ≠ key := by
      rintro rfl
      rw [absent] at found
      cases found
    exact (Function.update_of_ne differs ..).trans found

@[simp] theorem entry_holder (table : Table κ ω) (key : κ) : (table.entry key).1.holder = table.holder := by
  unfold entry
  split
  · rfl
  · rfl

end Table

end Locks

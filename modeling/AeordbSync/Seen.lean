import Mathlib.Data.Set.Insert
import AeordbSync.Library.FileCalls

namespace AeordbSync
open Characters OsPath FileSystem

/-- The content and the time of the file that a path leads to. -/
def shownAt (disk : Tree) (path : PathBuf) : Option (Bytes × Int) := match disk.metadata true path with
  | .ok (.file content time) => some (content, time)
  | _ => none

/-- What an observer of the disk has seen: the tree, the trees before it, and the times that the client has
read from its clock. -/
structure Seen where
  disk : Tree
  past : List Tree
  readings : List Int

namespace Seen

def trees (seen : Seen) : List Tree := seen.disk :: seen.past

/-- The time has been seen, at this path or on the clock. -/
def Spent (seen : Seen) (path : PathBuf) (time : Int) : Prop :=
  time ∈ seen.readings ∨ ∃ older ∈ seen.trees, ∃ bytes, shownAt older path = some (bytes, time)

/-- Each of the paths shows what it has shown, or nothing, or a file with a time that has not been seen. -/
def Fresh (paths : Set PathBuf) (seen : Seen) (disk : Tree) : Prop :=
  ∀ path ∈ paths, ∀ bytes time, shownAt disk path = some (bytes, time) →
    shownAt seen.disk path = some (bytes, time) ∨ ¬ seen.Spent path time

/-- The same time means the same content. -/
def Coherent (paths : Set PathBuf) (seen : Seen) : Prop :=
  ∀ path ∈ paths, ∀ first ∈ seen.trees, ∀ second ∈ seen.trees, ∀ bytes other time,
    shownAt first path = some (bytes, time) → shownAt second path = some (other, time) → bytes = other

/-- The disk has changed, and the clock may have been read. -/
structure Follows (paths : Set PathBuf) (seen next : Seen) : Prop where
  past : next.past = seen.trees
  readings : seen.readings ⊆ next.readings
  fresh : Fresh paths seen next.disk

variable {paths : Set PathBuf} {seen next : Seen} {path : PathBuf} {bytes : Bytes} {time : Int}

/-- A time that has been seen can only be seen on. -/
theorem Fresh.shown {disk : Tree} (fresh : Fresh paths seen disk) (inside : path ∈ paths)
    (spent : seen.Spent path time) (shown : shownAt disk path = some (bytes, time)) :
    shownAt seen.disk path = some (bytes, time) :=
  (fresh path inside bytes time shown).resolve_right (not_not_intro spent)

theorem Spent.step (spent : seen.Spent path time) (past : next.past = seen.trees)
    (readings : seen.readings ⊆ next.readings) : next.Spent path time := by
  rcases spent with read | ⟨older, known, shown⟩
  · exact .inl (readings read)
  · apply Or.inr
    refine ⟨older, ?_, shown⟩
    rw [trees, past]
    exact List.mem_cons_of_mem _ known

theorem Follows.spent (follows : Follows paths seen next) (spent : seen.Spent path time) : next.Spent path time :=
  spent.step follows.past follows.readings

theorem Follows.shown (follows : Follows paths seen next) (inside : path ∈ paths) (spent : seen.Spent path time)
    (shown : shownAt next.disk path = some (bytes, time)) : shownAt seen.disk path = some (bytes, time) :=
  follows.fresh.shown inside spent shown

theorem Follows.coherent (follows : Follows paths seen next) (coherent : Coherent paths seen) :
    Coherent paths next := by
  have new : ∀ path ∈ paths, ∀ older ∈ seen.trees, ∀ bytes other time,
      shownAt next.disk path = some (bytes, time) → shownAt older path = some (other, time) → bytes = other := by
    intro path inside older known bytes other time shown before
    have spent : seen.Spent path time := .inr ⟨older, known, other, before⟩
    exact coherent path inside seen.disk List.mem_cons_self older known _ _ _
      (follows.shown inside spent shown) before
  intro path inside first firstIn second secondIn bytes other time shown before
  rw [trees, follows.past, List.mem_cons] at firstIn secondIn
  rcases firstIn with rfl | old
  · rcases secondIn with rfl | older
    · rw [shown, Option.some.injEq, Prod.mk.injEq] at before
      exact before.1
    · exact new path inside second older _ _ _ shown before
  · rcases secondIn with rfl | older
    · exact (new path inside first old _ _ _ before shown).symm
    · exact coherent path inside first old second older _ _ _ shown before

theorem coherent_start (disk : Tree) (readings : List Int) : Coherent paths ⟨disk, [], readings⟩ := by
  intro path _ first firstIn second secondIn bytes other time shown before
  cases List.mem_singleton.mp firstIn
  cases List.mem_singleton.mp secondIn
  rw [shown, Option.some.injEq, Prod.mk.injEq] at before
  exact before.1

/-- The check of `Fresh` for one path. -/
def freshAt (path : PathBuf) (seen : Seen) (disk : Tree) : Bool := match shownAt disk path with
  | none => true
  | some file => decide (shownAt seen.disk path = some file) || decide (file.2 ∉ seen.readings) &&
      seen.trees.all fun older => decide ((shownAt older path).map Prod.snd ≠ some file.2)

theorem fresh_of_freshAt {disk : Tree} (checked : seen.freshAt path disk = true) : Fresh {path} seen disk := by
  intro other inside bytes time shown
  cases Set.mem_singleton_iff.mp inside
  unfold freshAt at checked
  rw [shown] at checked
  simp only [Bool.or_eq_true, Bool.and_eq_true, decide_eq_true_eq, List.all_eq_true] at checked
  rcases checked with same | ⟨unread, never⟩
  · exact .inl same
  · apply Or.inr
    rintro (read | ⟨older, known, content, before⟩)
    · exact unread read
    · exact never older known (by rw [before, Option.map_some])

end Seen

theorem shownAt_of_modified {disk : Tree} {path : PathBuf} {time : Int} (read : disk.modified path = .ok time) :
    ∃ bytes, shownAt disk path = some (bytes, time) := by
  unfold Tree.modified at read
  unfold shownAt
  split at read
  · cases read
  next content other found =>
    cases read
    exact ⟨content, by rw [found]⟩
  · cases read

theorem shownAt_of_metadata {disk : Tree} {path : PathBuf} {bytes : Bytes} {time : Int}
    (found : disk.metadata false path = .ok (.file bytes time)) : shownAt disk path = some (bytes, time) := by
  rw [shownAt, Tree.metadata_follow found]

end AeordbSync

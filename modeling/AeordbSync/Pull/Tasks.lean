import AeordbSync.Library.Loops
import AeordbSync.Library.Touched
import AeordbSync.Pull.Containment

namespace AeordbSync
open Characters OsPath FileSystem Effect

variable {ρ α : Type}

/-- What a diff asks a pull to do for one path. -/
inductive PullTask where
  | fetch (entry : RemoteSyncFileEntry)
  | link (entry : RemoteSyncSymlinkEntry)
  | removeFile (path : Text)
  | removeSymlink (path : Text)

namespace PullTask

def path : PullTask → Text
  | fetch entry => entry.path
  | link entry => entry.path
  | removeFile path => path
  | removeSymlink path => path

/-- The tasks are done kind by kind. -/
def turn : PullTask → Nat
  | fetch _ => 0
  | removeFile _ => 1
  | link _ => 2
  | removeSymlink _ => 3

/-- The files are fetched together before anything else is done. -/
def run (env : Env ρ) (ctx : PullContext) : PullTask → PullProgram ρ Unit
  | fetch _ => pure ()
  | link entry => pullSymlink env ctx entry
  | removeFile path => deleteLocalFile env ctx ⟨path⟩
  | removeSymlink path => deleteLocalSymlink env ctx ⟨path⟩

end PullTask

namespace PullContext

def removals (ctx : PullContext) (task : Text → PullTask) (deleted : List RemoteSyncDeletedEntry) : List PullTask :=
  if ctx.relationship.deletePropagation.remoteToLocal then deleted.map fun entry => task entry.path else []

/-- The tasks in the order in which they are done. -/
def tasks (globMatch : Text → Text → Bool) (ctx : PullContext) (changes : RemoteSyncChanges) : List PullTask :=
  let fetched := changes.files.filter fun entry => ctx.accepts globMatch entry.path
  (fetched.map PullTask.fetch ++ (ctx.removals .removeFile changes.filesDeleted ++
    (changes.symlinks.map PullTask.link ++ ctx.removals .removeSymlink changes.symlinksDeleted))).filter fun task =>
      !ctx.isExcluded task.path

/-- The task that has the last word on a path. -/
def lastTask (globMatch : Text → Text → Bool) (ctx : PullContext) (changes : RemoteSyncChanges) (path : Text) :
    Option PullTask :=
  findLast PullTask.path path (ctx.tasks globMatch changes)

end PullContext

section

variable {env : Env ρ} {ctx : PullContext} {changes : RemoteSyncChanges}

theorem run_excluded (task : PullTask) (excluded : ctx.isExcluded task.path = true) : task.run env ctx = pure () := by
  cases task with
  | fetch entry => rfl
  | link entry => exact if_pos excluded
  | removeFile path => exact if_pos excluded
  | removeSymlink path => exact if_pos excluded

theorem forEach_removals (task : Text → PullTask) (deleted : List RemoteSyncDeletedEntry) :
    Proc.forEach (ctx.removals task deleted) (PullTask.run env ctx) =
      Proc.when ctx.relationship.deletePropagation.remoteToLocal
        (Proc.forEach deleted fun entry => (task entry.path).run env ctx) := by
  rw [Proc.when_forEach, PullContext.removals]
  split
  · exact Proc.forEach_map _ _ _
  · rfl

/-- After the files have been fetched, the tasks are done one after the other. -/
theorem pullChanges_tasks : pullChanges env ctx changes =
    pullFiles env ctx changes.files >>= fun _ =>
      Proc.forEach (ctx.tasks env.globMatch changes) (PullTask.run env ctx) := by
  have nothing : ∀ fetched : List RemoteSyncFileEntry,
      Proc.forEach fetched (fun entry => (PullTask.fetch entry).run env ctx) = pure () :=
    fun fetched => Proc.forEach_idle fetched fun _ _ => rfl
  unfold pullChanges PullContext.tasks
  rw [Proc.forEach_filter _ _ fun task excluded => run_excluded task (by simpa using excluded), Proc.forEach_append,
    Proc.forEach_append, Proc.forEach_append, forEach_removals, forEach_removals, Proc.forEach_map, Proc.forEach_map,
    nothing]
  rfl

theorem mem_tasks {task : PullTask} (inside : task ∈ ctx.tasks env.globMatch changes) :
    ctx.isExcluded task.path = false := by
  simpa using (List.mem_filter.mp inside).2

theorem mem_removals {make : Text → PullTask} {deleted : List RemoteSyncDeletedEntry} {task : PullTask}
    (inside : task ∈ ctx.removals make deleted) : ∃ entry ∈ deleted, make entry.path = task := by
  unfold PullContext.removals at inside
  split at inside
  · exact List.mem_map.mp inside
  · cases inside

theorem mem_tasks_cases {task : PullTask} (inside : task ∈ ctx.tasks env.globMatch changes) :
    (∃ entry ∈ changes.files, ctx.accepts env.globMatch entry.path = true ∧ task = .fetch entry) ∨
      (∃ entry ∈ changes.filesDeleted, task = .removeFile entry.path) ∨
      (∃ entry ∈ changes.symlinks, task = .link entry) ∨
      ∃ entry ∈ changes.symlinksDeleted, task = .removeSymlink entry.path := by
  have listed := (List.mem_filter.mp inside).1
  rcases List.mem_append.mp listed with fetched | listed
  · obtain ⟨entry, found, rfl⟩ := List.mem_map.mp fetched
    obtain ⟨found, accepted⟩ := List.mem_filter.mp found
    exact Or.inl ⟨entry, found, accepted, rfl⟩
  rcases List.mem_append.mp listed with removed | listed
  · obtain ⟨entry, found, rfl⟩ := mem_removals removed
    exact Or.inr (Or.inl ⟨entry, found, rfl⟩)
  rcases List.mem_append.mp listed with linked | removed
  · obtain ⟨entry, found, rfl⟩ := List.mem_map.mp linked
    exact Or.inr (Or.inr (Or.inl ⟨entry, found, rfl⟩))
  · obtain ⟨entry, found, rfl⟩ := mem_removals removed
    exact Or.inr (Or.inr (Or.inr ⟨entry, found, rfl⟩))

theorem mem_tasks_fetch {entry : RemoteSyncFileEntry} : .fetch entry ∈ ctx.tasks env.globMatch changes ↔
    (entry ∈ changes.files ∧ ctx.accepts env.globMatch entry.path = true) ∧ ctx.isExcluded entry.path = false := by
  constructor
  · intro inside
    rcases mem_tasks_cases inside with ⟨_, found, accepted, same⟩ | ⟨_, _, same⟩ | ⟨_, _, same⟩ | ⟨_, _, same⟩ <;>
      cases same
    exact ⟨⟨found, accepted⟩, mem_tasks inside⟩
  · rintro ⟨found, included⟩
    refine List.mem_filter.mpr ⟨List.mem_append_left _ (List.mem_map_of_mem (List.mem_filter.mpr found)), ?_⟩
    exact Bool.not_eq_true' _ ▸ included

theorem mem_tasks_link {entry : RemoteSyncSymlinkEntry} (inside : .link entry ∈ ctx.tasks env.globMatch changes) :
    entry ∈ changes.symlinks := by
  rcases mem_tasks_cases inside with ⟨_, _, _, same⟩ | ⟨_, _, same⟩ | ⟨_, found, same⟩ | ⟨_, _, same⟩ <;> cases same
  exact found

theorem link_mem_tasks {entry : RemoteSyncSymlinkEntry} (listed : entry ∈ changes.symlinks)
    (included : ctx.isExcluded entry.path = false) : .link entry ∈ ctx.tasks env.globMatch changes := by
  refine List.mem_filter.mpr ⟨List.mem_append_right _ (List.mem_append_right _ (List.mem_append_left _
    (List.mem_map_of_mem listed))), ?_⟩
  exact Bool.not_eq_true' _ ▸ included

theorem removals_mem {make : Text → PullTask} {deleted : List RemoteSyncDeletedEntry} {entry : RemoteSyncDeletedEntry}
    (listed : entry ∈ deleted) (propagates : ctx.relationship.deletePropagation.remoteToLocal = true) :
    make entry.path ∈ ctx.removals make deleted := by
  rw [PullContext.removals, if_pos propagates]
  exact List.mem_map_of_mem (f := fun entry => make entry.path) listed

theorem removeFile_mem_tasks {entry : RemoteSyncDeletedEntry} (listed : entry ∈ changes.filesDeleted)
    (propagates : ctx.relationship.deletePropagation.remoteToLocal = true)
    (included : ctx.isExcluded entry.path = false) : .removeFile entry.path ∈ ctx.tasks env.globMatch changes := by
  refine List.mem_filter.mpr ⟨List.mem_append_right _ (List.mem_append_left _ (removals_mem listed propagates)), ?_⟩
  exact Bool.not_eq_true' _ ▸ included

theorem removeSymlink_mem_tasks {entry : RemoteSyncDeletedEntry} (listed : entry ∈ changes.symlinksDeleted)
    (propagates : ctx.relationship.deletePropagation.remoteToLocal = true)
    (included : ctx.isExcluded entry.path = false) : .removeSymlink entry.path ∈ ctx.tasks env.globMatch changes := by
  refine List.mem_filter.mpr ⟨List.mem_append_right _ (List.mem_append_right _ (List.mem_append_right _
    (removals_mem listed propagates))), ?_⟩
  exact Bool.not_eq_true' _ ▸ included

theorem tasks_ordered : (ctx.tasks env.globMatch changes).Pairwise fun first second => first.turn ≤ second.turn := by
  have fetches : ∀ entries : List RemoteSyncFileEntry, ∀ task ∈ entries.map PullTask.fetch, task.turn = 0 := by
    intro entries task inside
    obtain ⟨_, -, rfl⟩ := List.mem_map.mp inside
    rfl
  have files : ∀ task ∈ ctx.removals .removeFile changes.filesDeleted, task.turn = 1 := by
    intro task inside
    obtain ⟨_, -, rfl⟩ := mem_removals inside
    rfl
  have links : ∀ task ∈ changes.symlinks.map PullTask.link, task.turn = 2 := by
    intro task inside
    obtain ⟨_, -, rfl⟩ := List.mem_map.mp inside
    rfl
  have symlinks : ∀ task ∈ ctx.removals .removeSymlink changes.symlinksDeleted, task.turn = 3 := by
    intro task inside
    obtain ⟨_, -, rfl⟩ := mem_removals inside
    rfl
  have flat : ∀ (n : Nat) (tasks : List PullTask), (∀ task ∈ tasks, task.turn = n) →
      tasks.Pairwise fun first second => first.turn ≤ second.turn := by
    intro n tasks same
    refine List.pairwise_of_forall_mem_list fun first one second two => ?_
    rw [same first one, same second two]
  refine List.Pairwise.filter _ (List.pairwise_append.mpr ⟨flat 0 _ (fetches _), List.pairwise_append.mpr
    ⟨flat 1 _ files, List.pairwise_append.mpr ⟨flat 2 _ links, flat 3 _ symlinks, ?_⟩, ?_⟩, ?_⟩)
  · intro first one second two
    rw [links first one, symlinks second two]
    decide
  · intro first one second two
    rw [files first one]
    rcases List.mem_append.mp two with two | two
    · rw [links second two]
      decide
    · rw [symlinks second two]
      decide
  · intro first one second two
    rw [fetches _ first one]
    exact Nat.zero_le _

/-- The last task of a path is a task for it, and the tasks after it are for other paths. -/
theorem lastTask_split {path : Text} {task : PullTask} (last : ctx.lastTask env.globMatch changes path = some task) :
    task.path = path ∧ ∃ front back, ctx.tasks env.globMatch changes = front ++ task :: back ∧
      ∀ other ∈ back, other.path ≠ path := by
  obtain ⟨own, later, earlier, whole, apart⟩ := List.find?_eq_some_iff_append.mp last
  refine ⟨by simpa using own, earlier.reverse, later.reverse, ?_, fun other inside => ?_⟩
  · rw [← List.reverse_reverse (ctx.tasks env.globMatch changes), whole, List.reverse_append, List.reverse_cons,
      List.append_assoc, List.singleton_append]
  · simpa using apart other (List.mem_reverse.mp inside)

/-- No task of a path has a later turn than its last one. -/
theorem lastTask_turn {path : Text} {task other : PullTask}
    (last : ctx.lastTask env.globMatch changes path = some task)
    (inside : other ∈ ctx.tasks env.globMatch changes) (same : other.path = path) : other.turn ≤ task.turn := by
  obtain ⟨-, front, back, whole, later⟩ := lastTask_split last
  have ordered := @tasks_ordered _ env ctx changes
  rw [whole] at inside ordered
  rcases List.mem_append.mp inside with before | after
  · exact (List.pairwise_append.mp ordered).2.2 other before _ (List.mem_cons_self ..)
  · rcases List.mem_cons.mp after with rfl | after
    · exact le_refl _
    · exact absurd same (later other after)

theorem lastTask_own {path : Text} {task : PullTask} (last : ctx.lastTask env.globMatch changes path = some task) :
    task.path = path ∧ task ∈ ctx.tasks env.globMatch changes := by
  obtain ⟨own, front, back, whole, -⟩ := lastTask_split last
  rw [whole]
  exact ⟨own, List.mem_append_right _ (List.mem_cons_self ..)⟩

theorem lastTask_none {path : Text} (none : ctx.lastTask env.globMatch changes path = none) :
    ∀ task ∈ ctx.tasks env.globMatch changes, task.path ≠ path := by
  intro task inside
  have free := List.find?_eq_none.mp none task (List.mem_reverse.mpr inside)
  simpa using free

end

end AeordbSync

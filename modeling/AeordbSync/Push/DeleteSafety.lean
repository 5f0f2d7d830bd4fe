import AeordbSync.Push.RunRules
import AeordbSync.Reference

namespace AeordbSync
open Characters OsPath FileSystem Effect

variable {ρ : Type}

def deletions (log : List (Event ρ)) : List Text :=
  log.filterMap fun event => match event with
    | .deleted path => some path
    | _ => none

def FileOrSymlinkAt (disk : Tree) (path : PathBuf) : Prop :=
  ∃ node, disk.metadata false path = .ok node ∧ (node.isFile || node.isSymlink) = true

/-- The scan is certain to count the path as seen: one entry of the walk has this remote path, its
metadata can be read, and it is a symlink or a file that the filter accepts. -/
def CertainlySeen (env : Env ρ) (relationship : SyncRelationship) (others : List SyncRelationship)
    (disk : Tree) (path : Text) : Prop :=
  ∃ l names node, disk.Reaches relationship.localBase l ∧ names ≠ [] ∧
    disk.node (l ++ names) = some node ∧
    isLocalExcludedByChild (below relationship.localBase names)
      (childLocalExclusions relationship others) = false ∧
    computeRemotePath (names.map .normal) relationship.remotePath = path ∧
    (∀ tick, env.diskFault .symlinkMetadata (below relationship.localBase names) tick = none) ∧
    (node.isSymlink = true ∨
      node.isFile = true ∧ Accepted env relationship (below relationship.localBase names))

theorem mem_deletions {log : List (Event ρ)} {path : Text} :
    path ∈ deletions log ↔ .deleted path ∈ log := by
  rw [deletions, List.mem_filterMap]
  constructor
  · rintro ⟨event, inside, equal⟩
    cases event <;> simp_all
  · intro inside
    exact ⟨_, inside, rfl⟩

variable {env : Env ρ} {relationship : SyncRelationship} {others : List SyncRelationship}
  {mode : PushScanMode} {w : World ρ}

/-- Every recorded path that still has a file or a symlink at its place is spared by a child
relationship or is certain to be seen. -/
def LocalEntriesAccounted (env : Env ρ) (relationship : SyncRelationship)
    (others : List SyncRelationship) (w : World ρ) : Prop :=
  ∀ path ∈ w.store.files.paths,
    FileOrSymlinkAt w.disk (computeLocalPath path relationship.remotePath relationship.localBase) →
    isExcludedByChild path (childExclusions relationship others) = true ∨
      CertainlySeen env relationship others w.disk path

theorem CertainlySeen.seen {config : BlobConfig} {l : Location} {entries : List PathBuf} {s : PushState ρ}
    {path : Text} (certain : CertainlySeen env relationship others w.disk path)
    (ready : PushReady env relationship others mode w config l entries s) : path ∈ s.seenRemotePaths := by
  obtain ⟨root, names, node, reaches, nonempty, present, included, equal, readable, kind⟩ := certain
  have same : root = l := Except.ok.inj (reaches.here.symm.trans ready.reaches.here)
  subst root
  have isEntry : (node.isFile || node.isSymlink) = true := by
    rcases kind with link | ⟨file, -⟩
    · rw [link, Bool.or_true]
    · rw [file, Bool.true_or]
  have valid := w.disk.names_valid (l := l) (by rw [present]; exact Option.some_ne_none _)
  have outcome := (ready.outcome nonempty present isEntry included).2.resolve_left (by
    rintro ⟨-, error, tick, fault⟩
    rw [readable tick] at fault
    cases fault)
  have named : (pushContext relationship others mode config w).entryRemotePath
      (below relationship.localBase names) = path :=
    (entryRemotePath_eq (stripPrefix_below relationship.localBase valid)).trans equal
  rw [← named]
  cases node with
  | symlink target time => exact outcome.1
  | file content time =>
      rcases kind with link | ⟨-, accepted⟩
      · cases link
      · exact (outcome accepted).1
  | directory => cases isEntry
  | special => cases isEntry

/-- A push deletes on the remote only recorded paths that the scan has not seen and that no migration or
child relationship spares. -/
theorem pushSync_deletions {gone : Text → Prop}
    (spares : ∀ config l entries s, PushReady env relationship others mode w config l entries s →
      ∀ path ∈ w.store.files.paths,
        isDeletedLocally (pushContext relationship others mode config w) s.seenRemotePaths path = true →
        gone path) :
    ∃ new, (pushSync env relationship others mode w).2.log = new ++ w.log ∧ ∀ path ∈ deletions new, gone path := by
  suffices effects : ∃ new, (pushSync env relationship others mode w).2.log = new ++ w.log ∧
      ∀ event ∈ new, ∀ path, event = .deleted path → gone path by
    obtain ⟨new, equal, all⟩ := effects
    exact ⟨new, equal, fun path inside => all _ (mem_deletions.mp inside) path rfl⟩
  refine pushSync_effects fun config l entries s ready => ?_
  obtain ⟨start, -, inv⟩ := ready.scanned
  refine ⟨(· ∈ s.seenRemotePaths), gone, fun _ => True, fun request inside =>
    ⟨inv.requestSeen request inside, fun _ _ => trivial, fun _ _ => trivial⟩, inv.linkSeen,
    fun _ path known deleted => ?_, fun event mine path equal => by rw [equal] at mine; exact mine⟩
  rcases known with old | seen
  · exact spares config l entries s ready path old deleted
  · simp only [isDeletedLocally, Bool.and_eq_true, decide_eq_true_eq] at deleted
    exact absurd seen deleted.1.1

/-- Under the condition a push deletes on the remote only what has no local file or symlink. -/
theorem pushSync_deletes_absent (env : Env ρ) (relationship : SyncRelationship)
    (others : List SyncRelationship) (mode : PushScanMode) (w : World ρ)
    (accounted : LocalEntriesAccounted env relationship others w) :
    ∃ new, (pushSync env relationship others mode w).2.log = new ++ w.log ∧
      ∀ path ∈ deletions new, ¬ FileOrSymlinkAt w.disk
        (computeLocalPath path relationship.remotePath relationship.localBase) := by
  refine pushSync_deletions fun config l entries s ready path recorded deleted present => ?_
  simp only [isDeletedLocally, Bool.and_eq_true, decide_eq_true_eq, Bool.not_eq_true'] at deleted
  obtain ⟨⟨unseen, -⟩, uncovered⟩ := deleted
  rcases accounted path recorded present with excluded | certain
  · exact Bool.false_ne_true (uncovered.symm.trans excluded)
  · exact unseen (certain.seen ready)

/-- What was recorded under the old root of a pending migration is not deleted. -/
theorem pushSync_deletes_unmigrated (env : Env ρ) (relationship : SyncRelationship)
    (others : List SyncRelationship) (mode : PushScanMode) {w : World ρ} {migration : SyncPathMigration}
    (pending : w.store.migration = some migration) :
    ∃ new, (pushSync env relationship others mode w).2.log = new ++ w.log ∧
      ∀ path ∈ deletions new, isUnderRemoteBase path migration.oldRemotePath = false := by
  refine pushSync_deletions fun config l entries s ready path recorded deleted => ?_
  simp only [isDeletedLocally, pushContext, pending, Option.any_some, Bool.and_eq_true, Bool.not_eq_true'] at deleted
  exact deleted.1.2

def keptAndGone : World Shelf :=
  startWorld (homeTree [("kept.txt", .file [65] 5)])
    [syncedRecord "/docs/kept.txt" [65] 5, syncedRecord "/docs/gone.txt" [66] 5]
    (Shelf.holding [("/docs/kept.txt", .file [65]), ("/docs/gone.txt", .file [66])])

theorem pushSync_deletes_absent_keptAndGone :
    ∃ new, (pushSync shelfEnv (docsRelationship none) [] .lite keptAndGone).2.log = new ++ keptAndGone.log ∧
      ∀ path ∈ deletions new, ¬ FileOrSymlinkAt keptAndGone.disk
        (computeLocalPath path (text "/docs/") (docsRelationship none).localBase) := by
  refine pushSync_deletes_absent shelfEnv (docsRelationship none) [] .lite keptAndGone ?_
  have paths : keptAndGone.store.files.paths = [text "/docs/gone.txt", text "/docs/kept.txt"] := by decide
  intro path inside present
  rw [paths, List.mem_cons, List.mem_singleton] at inside
  rcases inside with rfl | rfl
  · obtain ⟨node, found, -⟩ := present
    have absent : keptAndGone.disk.metadata false (computeLocalPath (text "/docs/gone.txt")
        (docsRelationship none).remotePath (docsRelationship none).localBase) = .error .notFound := by decide
    rw [absent] at found
    cases found
  · refine Or.inr ⟨[osText (text "home")], [osText (text "kept.txt")], .file [65] 5,
      Tree.reaches_of_resolve (by decide) (by decide), by decide, by decide, by decide, by decide,
      fun _ => rfl, Or.inr ⟨rfl, text "kept.txt", by decide, by decide⟩⟩

def filteredWorld : World Shelf :=
  startWorld (homeTree [("draft.tmp", .file [65] 5)]) [syncedRecord "/docs/draft.tmp" [65] 5]
    (Shelf.holding [("/docs/draft.tmp", .file [65])])

/-- A file that the filter has come to reject is deleted on the remote while it exists locally. -/
theorem pushSync_deletes_filtered :
    (docsRelationship (some "!draft.tmp")).deletePropagation.localToRemote = true ∧
      filteredWorld.store.migration = none ∧
      (∀ path ∈ filteredWorld.store.files.paths, isUnderRemoteBase path (text "/docs/") = true) ∧
      text "/docs/draft.tmp" ∈ deletions
        (pushSync shelfEnv (docsRelationship (some "!draft.tmp")) [] .lite filteredWorld).2.log ∧
      FileOrSymlinkAt filteredWorld.disk (computeLocalPath (text "/docs/draft.tmp") (text "/docs/")
        (docsRelationship (some "!draft.tmp")).localBase) := by
  refine ⟨rfl, rfl, by decide, by decide, .file [65] 5, by decide, rfl⟩

end AeordbSync

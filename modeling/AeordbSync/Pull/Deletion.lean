import AeordbSync.Pull.Frame
import AeordbSync.Reference

namespace AeordbSync
open Characters OsPath FileSystem Effect

variable {ρ : Type} {env : Env ρ} {globMatch : Text → Text → Bool} {ctx : PullContext}
  {deleted : List RemoteSyncDeletedEntry}

/-- A file is fetched for the paths that no child owns and that the filter accepts. -/
def PullContext.mayCreate (globMatch : Text → Text → Bool) (ctx : PullContext) (path : Text) : Bool :=
  !ctx.isExcluded path && ctx.accepts globMatch path

/-- What has gone are places and records of listed paths for which a file may be fetched. -/
structure DeletesWithin (globMatch : Text → Text → Bool) (ctx : PullContext)
    (deleted : List RemoteSyncDeletedEntry) (w next : World ρ) : Prop where
  places : ∀ l, next.disk.node l ≠ w.disk.node l → next.disk.node l = none ∧
    ∃ entry ∈ deleted, ctx.mayCreate globMatch entry.path = true ∧
      ∃ left : Tree, (∀ q, left.node q = none ∨ left.node q = w.disk.node q) ∧
        left.resolve false (ctx.localPathOf entry.path) = .ok l
  records : ∀ path, ctx.mayCreate globMatch path = false →
    next.store.files.find path = w.store.files.find path

namespace DeletesWithin

variable {w next last : World ρ}

theorem refl (w : World ρ) : DeletesWithin globMatch ctx deleted w w :=
  ⟨fun _ differs => absurd rfl differs, fun _ _ => rfl⟩

theorem congr (within : DeletesWithin globMatch ctx deleted w next) (disk : last.disk = next.disk)
    (records : last.store.files = next.store.files) : DeletesWithin globMatch ctx deleted w last := by
  refine ⟨?_, ?_⟩
  · rw [disk]
    exact within.places
  · rw [records]
    exact within.records

/-- Every entry of the tree that is left is an entry of the first tree. -/
theorem left (within : DeletesWithin globMatch ctx deleted w next) (q : Location) :
    next.disk.node q = none ∨ next.disk.node q = w.disk.node q := by
  by_cases same : next.disk.node q = w.disk.node q
  · exact Or.inr same
  · exact Or.inl (within.places q same).1

theorem removed (within : DeletesWithin globMatch ctx deleted w next) {entry : RemoteSyncDeletedEntry}
    {disk : Tree} (listed : entry ∈ deleted) (allowed : ctx.mayCreate globMatch entry.path = true)
    (left : next.disk.removeFile (ctx.localPathOf entry.path) = .ok disk) (gone : last.disk = disk)
    (records : last.store.files = next.store.files) : DeletesWithin globMatch ctx deleted w last := by
  refine ⟨fun q differs => ?_, by rw [records]; exact within.records⟩
  unfold Tree.removeFile at left
  split at left
  · cases left
  next l resolved =>
    split at left
    · cases left
    · cases left
    next node notDirectory present =>
      have leaf : next.disk.node l ≠ some .directory := by
        rw [present]
        exact fun equal => notDirectory (Option.some.inj equal)
      rw [gone, ← Except.ok.inj left, Tree.node_erase _ leaf] at differs ⊢
      by_cases here : q = l
      · subst here
        rw [if_pos rfl]
        exact ⟨rfl, entry, listed, allowed, next.disk, within.left, resolved⟩
      · rw [if_neg here] at differs ⊢
        exact within.places q differs

theorem forgot (within : DeletesWithin globMatch ctx deleted w next) {gone : Text}
    (allowed : ctx.mayCreate globMatch gone = true) (disk : last.disk = next.disk)
    (records : last.store.files = next.store.files.remove gone) : DeletesWithin globMatch ctx deleted w last := by
  refine ⟨by rw [disk]; exact within.places, fun path spared => ?_⟩
  rw [records, Records.find_remove, if_neg]
  · exact within.records path spared
  · rintro rfl
    rw [allowed] at spared
    cases spared

end DeletesWithin

section Keeps

variable {w : World ρ}

/-- The program stays within the deletions that the pull may make. -/
def KeepsWithin {α : Type} (globMatch : Text → Text → Bool) (ctx : PullContext)
    (deleted : List RemoteSyncDeletedEntry) (w : World ρ) (x : PullProgram ρ α) : Prop :=
  Triple (fun s => DeletesWithin globMatch ctx deleted w s.world) x
    (fun _ s => DeletesWithin globMatch ctx deleted w s.world)
    (fun _ s => DeletesWithin globMatch ctx deleted w s.world)

theorem forgetDeleted_within {what : String} {path : Text} (allowed : ctx.mayCreate globMatch path = true) :
    KeepsWithin globMatch ctx deleted w (forgetDeleted env what path) := by
  refine Triple.bind (Q := fun _ s => DeletesWithin globMatch ctx deleted w s.world) ?_ fun _ =>
    Triple.modify fun _ before => before
  refine Triple.bind (Q := fun _ s => DeletesWithin globMatch ctx deleted w s.world) (Triple.attempt ?_) fun r => ?_
  · refine Triple.zoom fun s before => writeStore_triple ?_ ?_
    · rintro _ rfl
      exact before.forgot allowed rfl rfl
    · rintro _ _ rfl
      exact before.congr rfl rfl
  · cases r with
    | ok _ => exact Triple.ret fun _ before => before
    | error error => exact Triple.modify fun _ before => before

theorem deleteLocalFile_within {entry : RemoteSyncDeletedEntry} (listed : entry ∈ deleted)
    (allowed : ctx.isExcluded entry.path = false → ctx.accepts globMatch entry.path = true) :
    KeepsWithin globMatch ctx deleted w (deleteLocalFile env ctx entry) := by
  refine Triple.ite (fun _ => Triple.ret fun _ before => before) fun included => ?_
  rw [Bool.not_eq_true] at included
  have mine : ctx.mayCreate globMatch entry.path = true := by
    simp [PullContext.mayCreate, included, allowed included]
  refine Triple.bind (Q := fun _ s => DeletesWithin globMatch ctx deleted w s.world) ?_ fun known => ?_
  · refine Triple.zoom fun s before => readDisk_triple ?_
    rintro _ rfl
    exact before.congr rfl rfl
  cases known with
  | error error => exact forgetDeleted_within mine
  | ok _ =>
      refine Triple.bind (Q := fun _ s => DeletesWithin globMatch ctx deleted w s.world) ?_ fun removal => ?_
      · refine Triple.zoom fun s before => Triple.bind
          (Q := fun _ => DeletesWithin globMatch ctx deleted w) (note_triple ?_) fun _ =>
            changeDisk_triple (fun _ _ within _ => within.congr rfl rfl) fun next a disk within done => ?_
        · rintro _ rfl
          exact before.congr rfl rfl
        · cases left : next.disk.removeFile (ctx.localPathOf entry.path) with
          | error error =>
              rw [left] at done
              cases done
          | ok rest =>
              rw [left] at done
              cases done
              exact within.removed listed mine left rfl rfl
      · cases removal with
        | error error => exact Triple.modify fun _ before => before
        | ok _ => exact forgetDeleted_within mine

end Keeps

/-- Nothing but the record of one path. -/
def recordOnly (path : Text) : PullState Shelf :=
  PullState.start (startWorld Tree.bare [⟨path, [], 0, 0, .synced, 0⟩] (Shelf.holding []))

/-- Every question whether a local file exists goes unanswered. -/
def unanswered (globMatch : Text → Text → Bool) : Env Shelf :=
  { shelfEnv with
    globMatch := globMatch
    diskFault := fun call _ _ => if call = .exists then some IoError.permissionDenied else none }

/-- A file whose presence is not known loses its record. -/
theorem deleteLocalFile_unanswered {path : Text} {entry : RemoteSyncDeletedEntry} {rest : List RemoteSyncDeletedEntry}
    (included : ctx.isExcluded path = false) :
    Triple (fun s => (∃ other ∈ entry :: rest, other.path = path) ∨ s.world.store.files.find path = none)
      (deleteLocalFile (unanswered globMatch) ctx entry)
      (fun _ s => (∃ other ∈ rest, other.path = path) ∨ s.world.store.files.find path = none) (fun _ _ => False) := by
  refine Triple.ite (fun excluded => Triple.ret fun s before => ?_) fun _ => ?_
  · rcases before with ⟨other, inside, rfl⟩ | absent
    · rcases List.mem_cons.mp inside with rfl | later
      · rw [included] at excluded
        cases excluded
      · exact Or.inl ⟨other, later, rfl⟩
    · exact Or.inr absent
  · intro s before
    show (∃ other ∈ rest, other.path = path) ∨ (s.world.store.files.remove entry.path).find path = none
    rw [Records.find_remove]
    rcases before with ⟨other, inside, rfl⟩ | absent
    · rcases List.mem_cons.mp inside with rfl | later
      · exact Or.inr (if_pos rfl)
      · exact Or.inl ⟨other, later, rfl⟩
    · exact Or.inr (by rw [absent, ite_self])

/-- The deletions stay within what the pull may create exactly when the filter accepts every listed path
that no child owns. -/
theorem deleteFiles_within_iff (globMatch : Text → Text → Bool) (ctx : PullContext)
    (deleted : List RemoteSyncDeletedEntry) :
    (∀ (ρ : Type) (env : Env ρ) (s : PullState ρ), env.globMatch = globMatch →
      DeletesWithin globMatch ctx deleted s.world (deleteFiles env ctx deleted s).2.world) ↔
    (ctx.relationship.deletePropagation.remoteToLocal = true →
      ∀ entry ∈ deleted, ctx.isExcluded entry.path = false → ctx.accepts globMatch entry.path = true) := by
  constructor
  · intro within propagates entry inside included
    by_contra rejected
    rw [Bool.not_eq_true] at rejected
    have gone : Triple (fun s => (∃ other ∈ deleted, other.path = entry.path) ∨ s.world.store.files.find entry.path = none)
        (deleteFiles (unanswered globMatch) ctx deleted)
        (fun _ s => s.world.store.files.find entry.path = none)
        (fun _ s => s.world.store.files.find entry.path = none) := by
      refine Triple.when (fun _ => ?_) fun idle => absurd propagates idle
      refine (Triple.forEach (fun rest s => (∃ other ∈ rest, other.path = entry.path) ∨
        s.world.store.files.find entry.path = none) deleted fun other rest _ =>
          deleteLocalFile_unanswered included).conseq (fun _ => id) (fun _ s ended => ?_) fun _ _ => False.elim
      exact ended.resolve_left fun ⟨_, impossible, _⟩ => List.not_mem_nil impossible
    have recorded : (recordOnly entry.path).world.store.files.find entry.path =
        some ⟨entry.path, [], 0, 0, .synced, 0⟩ := (Records.find_set _ _ _).trans (if_pos rfl)
    have absent := gone.reached (s := recordOnly entry.path) (Or.inl ⟨entry, inside, rfl⟩)
    have spared : ctx.mayCreate globMatch entry.path = false := by
      simp [PullContext.mayCreate, included, rejected]
    have kept := (within Shelf (unanswered globMatch) (recordOnly entry.path) rfl).records entry.path spared
    rw [absent, recorded] at kept
    cases kept
  · intro accepted ρ env s _
    have run : KeepsWithin globMatch ctx deleted s.world (deleteFiles env ctx deleted) := by
      refine Triple.when (fun propagates => ?_) fun _ _ before => before
      exact Triple.forEach_keep _ deleted fun entry inside =>
        deleteLocalFile_within inside (accepted propagates entry inside)
    exact Triple.reached run (DeletesWithin.refl s.world)

def draftWorld : World Shelf :=
  startWorld (homeTree [("draft.tmp", .file [65] 5)]) [syncedRecord "/docs/draft.tmp" [65] 5]
    { Shelf.holding [] with diffs := [⟨text "next", ⟨[], [], [⟨text "/docs/draft.tmp"⟩], [], [], []⟩⟩] }

/-- A pull removes a local file that the filter rejects, and it removes its record. -/
theorem pullSync_deletes_filtered :
    (docsRelationship (some "!draft.tmp")).deletePropagation.remoteToLocal = true ∧
      matchesFilter shelfEnv.globMatch (text "draft.tmp") (docsRelationship (some "!draft.tmp")).filter = false ∧
      draftWorld.disk.node [osText (text "home"), osText (text "draft.tmp")] = some (.file [65] 5) ∧
      (pullSync shelfEnv (docsRelationship (some "!draft.tmp")) [] draftWorld).2.disk.node
        [osText (text "home"), osText (text "draft.tmp")] = none ∧
      draftWorld.store.files.find (text "/docs/draft.tmp") = some (syncedRecord "/docs/draft.tmp" [65] 5) ∧
      (pullSync shelfEnv (docsRelationship (some "!draft.tmp")) [] draftWorld).2.store.files.find
        (text "/docs/draft.tmp") = none := by
  refine ⟨rfl, by decide, by decide, by decide, by decide, by decide⟩

end AeordbSync

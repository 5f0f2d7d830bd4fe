import AeordbSync.Pull.Rules

namespace AeordbSync
open Characters OsPath FileSystem Effect

variable {ρ α : Type} {env : Env ρ}

/-- The path names a directory on the way to the place of an entry. -/
def LeadsTo (localPath path : PathBuf) : Prop :=
  ∃ front, front <+: components localPath ∧ path = ofComponents front

/-- How a file comes to its place. -/
def FileChange (localPath : PathBuf) : LocalChange → PathBuf → Prop
  | .directory, path => LeadsTo localPath path
  | .partialFile, path => path = partialPath localPath
  | .removal, path => path = partialPath localPath
  | .file, path => path = localPath
  | .symlink, _ => False

/-- How a symlink comes to its place. -/
def SymlinkChange (localPath : PathBuf) : LocalChange → PathBuf → Prop
  | .directory, path => LeadsTo localPath path
  | .removal, path => path = localPath
  | .symlink, path => path = localPath
  | _, _ => False

namespace PullContext

def Fetches (globMatch : Text → Text → Bool) (ctx : PullContext) (changes : RemoteSyncChanges) (path : Text) : Prop :=
  (∃ entry ∈ changes.files, entry.path = path) ∧ ctx.isExcluded path = false ∧ ctx.accepts globMatch path = true

def Links (ctx : PullContext) (changes : RemoteSyncChanges) (path : Text) : Prop :=
  (∃ entry ∈ changes.symlinks, entry.path = path) ∧ ctx.isExcluded path = false

def Deletes (ctx : PullContext) (changes : RemoteSyncChanges) (path : Text) : Prop :=
  (∃ deleted ∈ changes.filesDeleted ++ changes.symlinksDeleted, deleted.path = path) ∧ ctx.isExcluded path = false ∧
    ctx.relationship.deletePropagation.remoteToLocal = true

/-- What the changes of one diff let a pull do. -/
def scope (globMatch : Text → Text → Bool) (ctx : PullContext) (changes : RemoteSyncChanges) : PullScope where
  change entry change path :=
    (ctx.Fetches globMatch changes entry ∧ FileChange (ctx.localPathOf entry) change path) ∨
      (ctx.Links changes entry ∧ SymlinkChange (ctx.localPathOf entry) change path) ∨
      (ctx.Deletes changes entry ∧ change = .removal ∧ path = ctx.localPathOf entry)
  stored path := ctx.Fetches globMatch changes path ∨ ctx.Links changes path
  gone path := ctx.Deletes changes path

end PullContext

section Programs

variable {scope : PullScope} {start : World ρ}

theorem makeDir_framed {entry : Text} {path : PathBuf} (inside : scope.change entry .directory path) :
    Framed scope start (makeDir env entry path) fun _ => True :=
  framed_bind (framed_note inside) fun _ _ => framed_changeDisk

theorem unlessDir_framed {path : PathBuf} {error : IoError} :
    Framed scope start (unlessDir env path error) fun _ => True :=
  framed_bind framed_readDisk fun r _ => by
    rcases r with error | _ | _ <;> exact framed_pure trivial

theorem createDirs_framed {entry : Text} (parts : List Component)
    (inside : ∀ front, front <+: parts.reverse → scope.change entry .directory (ofComponents front)) :
    Framed scope start (createDirs env entry parts) fun _ => True := by
  induction parts with
  | nil => exact framed_pure trivial
  | cons last above ih =>
      have here : scope.change entry .directory (ofComponents (last :: above).reverse) := inside _ (List.prefix_refl _)
      have deeper : ∀ front, front <+: above.reverse → scope.change entry .directory (ofComponents front) := by
        intro front before
        refine inside front (before.trans ?_)
        rw [List.reverse_cons]
        exact List.prefix_append _ _
      refine framed_bind (makeDir_framed here) fun r _ => ?_
      cases r with
      | ok _ => exact framed_pure trivial
      | error error =>
          dsimp only
          split
          · refine framed_bind (ih deeper) fun r _ => ?_
            cases r with
            | error error => exact framed_pure trivial
            | ok _ =>
                refine framed_bind (makeDir_framed here) fun r _ => ?_
                cases r with
                | ok _ => exact framed_pure trivial
                | error error => exact unlessDir_framed
          · exact unlessDir_framed

/-- Making the directories above a path only makes directories that lead to it. -/
theorem createParent_framed {entry : Text} {path : PathBuf}
    (inside : ∀ above, LeadsTo path above → scope.change entry .directory above) :
    Framed scope start (createParent env entry path) fun _ => True := by
  unfold createParent
  split
  · exact framed_pure trivial
  next above found =>
    refine createDirs_framed _ fun front before => inside _ ⟨front, ?_, rfl⟩
    rw [List.reverse_reverse, components_parent found] at before
    exact before.trans (List.dropLast_prefix _)

theorem openFile_framed {path : PathBuf} : Framed scope start (openFile env path) fun _ => True :=
  framed_readDisk

theorem hashLocalFileChunks_framed {config : BlobConfig} {path : PathBuf} :
    Framed scope start (hashLocalFileChunks env config path) fun _ => True := by
  refine framed_bind openFile_framed fun opened _ => ?_
  cases opened with
  | error error => exact framed_pure trivial
  | ok _ =>
      refine Triple.ite (fun _ => framed_pure trivial) fun _ => ?_
      refine framed_bind framed_readDisk fun content _ => ?_
      cases content <;> exact framed_pure trivial

theorem openLocal_framed {path : PathBuf} {chunks : List LocalChunk} :
    Framed scope start (openLocal env path chunks) fun _ => True := by
  refine Triple.ite (fun _ => framed_pure trivial) fun _ => ?_
  refine framed_bind framed_readDisk fun opened _ => ?_
  cases opened with
  | ok l => exact framed_pure trivial
  | error error => exact Triple.ite (fun _ => framed_pure trivial) fun _ => framed_throw

section File

variable {entry : Text} {path : PathBuf} (own : ∀ change other, FileChange path change other → scope.change entry change other)
include own

theorem cleanupPartial_framed : Framed scope start (cleanupPartial env entry (partialPath path)) fun _ => True :=
  framed_bind (framed_note (own .removal _ rfl)) fun _ _ =>
    framed_bind framed_changeDisk fun _ _ => framed_pure trivial

theorem orCleanup_framed {x : Program ρ α} (framed : Framed scope start x fun _ => True) :
    Framed scope start (orCleanup env entry (partialPath path) x) fun _ => True := by
  refine framed_bind (framed_attempt framed) fun r _ => ?_
  cases r with
  | ok a => exact framed_pure trivial
  | error error => exact framed_bind (cleanupPartial_framed own) fun _ _ => framed_throw

theorem chunkBytes_framed {reader : Option Location} {chunks : List LocalChunk} {fetched : List (Text × Bytes)}
    {hash : Text} : Framed scope start (chunkBytes env entry path reader chunks fetched hash) fun _ => True := by
  unfold chunkBytes
  split
  · exact framed_throw
  · exact orCleanup_framed own (framed_bind (framed_orFail framed_readDisk) fun _ _ => framed_orFail framed_readDisk)
  · exact framed_pure trivial
  · exact orCleanup_framed own framed_throw

theorem writeChunks_framed {reader : Option Location} {chunks : List LocalChunk} {fetched : List (Text × Bytes)}
    {written : Location} {hashes : List Text} :
    Framed scope start (writeChunks env entry path reader chunks fetched written hashes) fun _ => True := by
  induction hashes with
  | nil => exact framed_pure trivial
  | cons hash rest ih =>
      refine framed_bind (chunkBytes_framed own) fun bytes _ => ?_
      refine framed_bind (orCleanup_framed own ?_) fun _ _ => framed_bind ih fun _ _ => framed_pure trivial
      exact framed_bind (framed_note (own .partialFile _ rfl)) fun _ _ => framed_orFail framed_changeDisk

theorem finishPartial_framed : Framed scope start (finishPartial env entry path) fun _ => True := by
  refine orCleanup_framed own (framed_bind (framed_orFail framed_readDisk) fun _ _ => ?_)
  exact framed_bind (framed_note (own .file _ rfl)) fun _ _ => framed_orFail framed_changeDisk

end File

/-- An assembly writes the partial file of its entry and puts it in place. -/
theorem assembleFile_framed {fetched : List (Text × Bytes)} {plan : FilePlan}
    (own : ∀ change other, FileChange plan.localPath change other → scope.change plan.entry.path change other) :
    Framed scope start (assembleFile env fetched plan) fun _ => True := by
  refine framed_bind openLocal_framed fun reader _ => ?_
  refine framed_bind (F := fun _ => True) ?_ fun written _ => ?_
  · exact framed_bind (framed_note (own .partialFile _ rfl)) fun _ _ => framed_orFail framed_changeDisk
  exact framed_bind (writeChunks_framed own) fun content _ =>
    framed_bind (finishPartial_framed own) fun _ _ => framed_pure trivial

theorem storeMeta_keeps {what : String} {record : FileSyncMeta} (inside : scope.stored record.path) :
    PullKeeps scope start (storeMeta env what record) fun _ => True := by
  refine keeps_bind (keeps_attempt (keeps_onDisk (framed_setFileMeta inside))) fun r _ => ?_
  cases r with
  | ok _ => exact keeps_pure trivial
  | error error => exact keeps_modify fun _ => rfl

theorem assemblePlan_keeps {fetched : List (Text × Bytes)} {fetchError : Option Text} {plan : FilePlan}
    (own : ∀ change other, FileChange plan.localPath change other → scope.change plan.entry.path change other)
    (inside : scope.stored plan.entry.path) :
    PullKeeps scope start (assemblePlan env fetched fetchError plan) fun _ => True := by
  unfold assemblePlan
  cases fetchError with
  | some error => exact keeps_modify fun _ => rfl
  | none =>
      refine keeps_bind (keeps_attempt (keeps_onDisk (assembleFile_framed own))) fun r _ => ?_
      cases r with
      | error error => exact keeps_modify fun _ => rfl
      | ok result =>
          refine keeps_bind (keeps_onDisk framed_now) fun time _ => ?_
          refine keeps_bind (keeps_onDisk (F := fun _ => True) ?_) fun modified _ => ?_
          · refine framed_bind framed_readDisk fun r _ => ?_
            cases r with
            | error error => exact framed_pure trivial
            | ok time => exact Triple.ite (fun _ => framed_pure trivial) fun _ => framed_pure trivial
          · exact keeps_bind (storeMeta_keeps inside) fun _ _ => keeps_modify fun _ => rfl

theorem fetchBatches_framed {batches : List (List Text)} :
    Framed scope start (fetchBatches env batches) fun _ => True := by
  induction batches with
  | nil => exact framed_pure trivial
  | cons batch rest ih =>
      refine framed_bind (framed_attempt framed_callRemote) fun r _ => ?_
      cases r with
      | error error => exact framed_pure trivial
      | ok pairs => exact framed_bind ih fun _ _ => framed_pure trivial

theorem fetchChunks_framed {plans : List FilePlan} : Framed scope start (fetchChunks env plans) fun _ => True :=
  framed_bind framed_arrange fun _ _ => fetchBatches_framed

end Programs

/-- A plan is made for an entry that the pull fetches. -/
structure PlanOf (globMatch : Text → Text → Bool) (ctx : PullContext) (entries : List RemoteSyncFileEntry)
    (plan : FilePlan) : Prop where
  entry : plan.entry ∈ entries
  localPath : plan.localPath = ctx.localPathOf plan.entry.path
  included : ctx.isExcluded plan.entry.path = false
  accepted : ctx.accepts globMatch plan.entry.path = true

theorem PlanOf.mono {globMatch : Text → Text → Bool} {ctx : PullContext} {entries more : List RemoteSyncFileEntry}
    {plan : FilePlan} (made : PlanOf globMatch ctx entries plan) (listed : ∀ entry ∈ entries, entry ∈ more) :
    PlanOf globMatch ctx more plan :=
  ⟨listed _ made.entry, made.localPath, made.included, made.accepted⟩

section Pull

variable {scope : PullScope} {start : World ρ} {ctx : PullContext} {changes : RemoteSyncChanges}

theorem planEntry_keeps {entry : RemoteSyncFileEntry}
    (own : ctx.isExcluded entry.path = false → ctx.accepts env.globMatch entry.path = true →
      ∀ above, LeadsTo (ctx.localPathOf entry.path) above → scope.change entry.path .directory above) :
    PullKeeps scope start (planEntry env ctx entry)
      fun plan => ∀ made ∈ plan, PlanOf env.globMatch ctx [entry] made := by
  have nothing : ∀ made ∈ (none : Option FilePlan), PlanOf env.globMatch ctx [entry] made := fun _ impossible => by
    cases impossible
  unfold planEntry
  split
  · exact keeps_bind (keeps_modify fun _ => rfl) fun _ _ => keeps_pure nothing
  next included =>
    rw [Bool.not_eq_true] at included
    split
    · exact keeps_bind (keeps_modify fun _ => rfl) fun _ _ => keeps_pure nothing
    next accepted =>
      rw [Bool.not_eq_false] at accepted
      refine keeps_bind (keeps_onDisk (createParent_framed (own included accepted))) fun r _ => ?_
      cases r with
      | error error => exact keeps_bind (keeps_modify fun _ => rfl) fun _ _ => keeps_pure nothing
      | ok _ =>
          refine keeps_bind (keeps_onDisk hashLocalFileChunks_framed) fun chunks _ => ?_
          cases chunks <;> refine keeps_pure fun made equal => ?_ <;> cases equal <;>
            exact ⟨List.mem_singleton_self _, rfl, included, accepted⟩

theorem planEntries_keeps {entries : List RemoteSyncFileEntry}
    (own : ∀ entry ∈ entries, ctx.isExcluded entry.path = false → ctx.accepts env.globMatch entry.path = true →
      ∀ above, LeadsTo (ctx.localPathOf entry.path) above → scope.change entry.path .directory above) :
    PullKeeps scope start (planEntries env ctx entries)
      fun plans => ∀ plan ∈ plans, PlanOf env.globMatch ctx entries plan := by
  induction entries with
  | nil => exact keeps_pure fun _ impossible => by cases impossible
  | cons entry rest ih =>
      refine keeps_bind (planEntry_keeps (own entry (List.mem_cons_self ..))) fun first made => ?_
      refine keeps_bind (ih fun other inside => own other (List.mem_cons_of_mem _ inside)) fun others known => ?_
      refine keeps_pure fun plan inside => ?_
      rcases List.mem_append.mp inside with here | later
      · exact (made plan (by simpa using here)).mono fun other single =>
          List.mem_cons.mpr (Or.inl (List.mem_singleton.mp single))
      · exact (known plan later).mono fun other listed => List.mem_cons_of_mem _ listed

theorem deleteLocal_keeps {follow : Bool} {failure what : String} {path : Text}
    (own : ctx.isExcluded path = false → scope.change path .removal (ctx.localPathOf path) ∧ scope.gone path) :
    PullKeeps scope start (deleteLocal env ctx follow failure what path) fun _ => True := by
  unfold deleteLocal
  split
  · exact keeps_pure trivial
  next included =>
    obtain ⟨removal, gone⟩ := own (Bool.not_eq_true _ ▸ included)
    have forget : PullKeeps scope start (forgetDeleted env what path) fun _ => True := by
      refine keeps_bind (F := fun _ => True) ?_ fun _ _ => keeps_modify fun _ => rfl
      refine keeps_bind (keeps_attempt (keeps_onDisk (framed_deleteFileMeta gone))) fun r _ => ?_
      cases r with
      | ok _ => exact keeps_pure trivial
      | error error => exact keeps_modify fun _ => rfl
    refine keeps_bind (keeps_onDisk framed_readDisk) fun r _ => ?_
    cases r with
    | error error => exact forget
    | ok _ =>
        refine keeps_bind (keeps_onDisk (framed_bind (framed_note removal) fun _ _ => framed_changeDisk)) fun r _ => ?_
        cases r with
        | error error => exact keeps_modify fun _ => rfl
        | ok _ => exact forget

theorem pullSymlink_keeps {entry : RemoteSyncSymlinkEntry}
    (own : ctx.isExcluded entry.path = false → (∀ change other, SymlinkChange (ctx.localPathOf entry.path) change other →
      scope.change entry.path change other) ∧ scope.stored entry.path) :
    PullKeeps scope start (pullSymlink env ctx entry) fun _ => True := by
  unfold pullSymlink
  split
  · exact keeps_pure trivial
  next included =>
    obtain ⟨change, stored⟩ := own (Bool.not_eq_true _ ▸ included)
    refine keeps_bind (keeps_onDisk (createParent_framed fun above leads => change .directory above leads)) fun r _ => ?_
    cases r with
    | error error => exact keeps_modify fun _ => rfl
    | ok _ =>
        refine keeps_bind (keeps_onDisk (F := fun _ => True) ?_) fun r _ => ?_
        · refine framed_bind (F := fun _ => True) ?_ fun _ _ =>
            framed_bind (framed_note (change .symlink _ rfl)) fun _ _ => framed_changeDisk
          refine framed_bind framed_readDisk fun r _ => ?_
          cases r with
          | error error => exact framed_pure trivial
          | ok _ =>
              refine framed_bind (F := fun _ => True) ?_ fun _ _ => framed_pure trivial
              exact framed_bind (framed_note (change .removal _ rfl)) fun _ _ => framed_changeDisk
        · cases r with
          | error error => exact keeps_modify fun _ => rfl
          | ok _ =>
              refine keeps_bind (keeps_onDisk framed_now) fun time _ => ?_
              exact keeps_bind (storeMeta_keeps stored) fun _ _ => keeps_modify fun _ => rfl

theorem deleteFiles_keeps {deleted : List RemoteSyncDeletedEntry}
    (own : ∀ entry ∈ deleted, ctx.relationship.deletePropagation.remoteToLocal = true →
      ctx.isExcluded entry.path = false →
      scope.change entry.path .removal (ctx.localPathOf entry.path) ∧ scope.gone entry.path) :
    PullKeeps scope start (deleteFiles env ctx deleted) fun _ => True :=
  keeps_when fun propagates => keeps_forEach fun entry inside => deleteLocal_keeps (own entry inside propagates)

theorem deleteSymlinks_keeps {deleted : List RemoteSyncDeletedEntry}
    (own : ∀ entry ∈ deleted, ctx.relationship.deletePropagation.remoteToLocal = true →
      ctx.isExcluded entry.path = false →
      scope.change entry.path .removal (ctx.localPathOf entry.path) ∧ scope.gone entry.path) :
    PullKeeps scope start (deleteSymlinks env ctx deleted) fun _ => True :=
  keeps_when fun propagates => keeps_forEach fun entry inside => deleteLocal_keeps (own entry inside propagates)

/-- The changes of a diff keep a pull in their scope. -/
theorem pullChanges_keeps : PullKeeps (ctx.scope env.globMatch changes) start (pullChanges env ctx changes) fun _ => True := by
  have fetches : ∀ entry ∈ changes.files, ctx.isExcluded entry.path = false →
      ctx.accepts env.globMatch entry.path = true → ctx.Fetches env.globMatch changes entry.path :=
    fun entry inside included accepted => ⟨⟨entry, inside, rfl⟩, included, accepted⟩
  have deletes : ∀ entry ∈ changes.filesDeleted ++ changes.symlinksDeleted,
      ctx.relationship.deletePropagation.remoteToLocal = true → ctx.isExcluded entry.path = false →
      (ctx.scope env.globMatch changes).change entry.path .removal (ctx.localPathOf entry.path) ∧
        (ctx.scope env.globMatch changes).gone entry.path := by
    intro entry inside propagates included
    have mine : ctx.Deletes changes entry.path := ⟨⟨entry, inside, rfl⟩, included, propagates⟩
    exact ⟨Or.inr (Or.inr ⟨mine, rfl, rfl⟩), mine⟩
  refine keeps_bind (F := fun _ => True) ?_ fun _ _ => keeps_bind (F := fun _ => True) ?_ fun _ _ =>
    keeps_bind (F := fun _ => True) ?_ fun _ _ => ?_
  · refine keeps_bind (planEntries_keeps fun entry inside included accepted above leads =>
      Or.inl ⟨fetches entry inside included accepted, leads⟩) fun plans known => ?_
    refine keeps_bind (keeps_onDisk fetchChunks_framed) fun fetched _ => keeps_forEach fun plan inside => ?_
    obtain ⟨listed, path, included, accepted⟩ := known plan inside
    have mine := fetches plan.entry listed included accepted
    exact assemblePlan_keeps (fun change other made => Or.inl ⟨mine, path ▸ made⟩) (Or.inl mine)
  · exact deleteFiles_keeps fun entry inside => deletes entry (List.mem_append_left _ inside)
  · refine keeps_forEach fun entry inside => pullSymlink_keeps fun included => ?_
    have mine : ctx.Links changes entry.path := ⟨⟨entry, inside, rfl⟩, included⟩
    exact ⟨fun change other made => Or.inr (Or.inl ⟨mine, made⟩), Or.inr mine⟩
  · exact deleteSymlinks_keeps fun entry inside => deletes entry (List.mem_append_right _ inside)

theorem saveCheckpoint_framed {relationship : SyncRelationship} {rootHash : Text} :
    Framed scope start (saveCheckpoint env relationship rootHash) fun _ => True := by
  refine framed_bind framed_now fun time _ => ?_
  exact writeStore_triple (fun w before => ⟨before.congr rfl rfl, trivial⟩) fun _ _ before => before.congr rfl rfl

end Pull

/-- One scope allows whatever another does. -/
structure PullScope.Covers (large small : PullScope) : Prop where
  change : ∀ entry change path, small.change entry change path → large.change entry change path
  stored : ∀ path, small.stored path → large.stored path
  gone : ∀ path, small.gone path → large.gone path

theorem PullFramed.mono {large small : PullScope} (covers : large.Covers small) {start next : World ρ}
    (framed : PullFramed small start next) : PullFramed large start next := by
  obtain ⟨new, equal, all⟩ := framed.log
  refine ⟨⟨new, equal, fun event inside => ?_⟩, fun path stored gone => ?_, fun path inside =>
    (framed.fresh path inside).imp_right (covers.stored path)⟩
  · have mine := all event inside
    cases event with
    | localChange entry change path => exact covers.change entry change path mine
    | recorded record remote => exact covers.stored record.path mine
    | forgotten path => exact covers.gone path mine
    | _ => exact mine.elim
  · exact framed.records path (fun mine => stored (covers.stored path mine)) fun mine => gone (covers.gone path mine)

/-- The diff that a pull from this state is offered. -/
def offeredDiff (env : Env ρ) (w : World ρ) : Except ClientError RemoteSyncDiffResponse :=
  (env.engine.syncDiff (w.store.checkpoint.map SyncCheckpoint.remoteRootHash) (env.engine.blobConfig w.remote).2).1

/-- The engine and the records are as the first call has left them, and only directories have been made. -/
structure PullBegun (env : Env ρ) (relationship : SyncRelationship) (w next : World ρ) : Prop where
  store : next.store = w.store
  remote : next.remote = (env.engine.blobConfig w.remote).2
  log : ∃ new, next.log = new ++ w.log ∧ ∀ event ∈ new, ∃ path,
    event = .localChange relationship.remotePath .directory path ∧ LeadsTo relationship.localBase path

namespace PullBegun

variable {relationship : SyncRelationship} {w next last : World ρ}

theorem congr (begun : PullBegun env relationship w next) (store : last.store = next.store)
    (remote : last.remote = next.remote) (log : last.log = next.log) : PullBegun env relationship w last := by
  refine ⟨store.trans begun.store, remote.trans begun.remote, ?_⟩
  rw [log]
  exact begun.log

theorem framed (begun : PullBegun env relationship w next) {scope : PullScope}
    (base : ∀ path, LeadsTo relationship.localBase path → scope.change relationship.remotePath .directory path) :
    PullFramed scope w next := by
  obtain ⟨new, equal, all⟩ := begun.log
  refine ⟨⟨new, equal, fun event inside => ?_⟩, fun path _ _ => by rw [begun.store], by
    rw [begun.store]
    exact fun _ => Or.inl⟩
  obtain ⟨path, rfl, leads⟩ := all event inside
  exact base path leads

end PullBegun

section Begin

variable {relationship : SyncRelationship} {w : World ρ}

/-- A program that makes directories for the local base keeps a pull at its beginning. -/
def Begins (env : Env ρ) (relationship : SyncRelationship) (w : World ρ) (x : Program ρ α) : Prop :=
  Triple (PullBegun env relationship w) x (fun _ => PullBegun env relationship w)
    (fun _ => PullBegun env relationship w)

theorem changeDisk_begins {call : DiskCall} {path : PathBuf} {f : Int → Tree → Except IoError (α × Tree)} :
    Begins env relationship w (changeDisk env call path f) :=
  changeDisk_triple (fun _ _ before _ => before.congr rfl rfl rfl) fun _ _ _ before _ => before.congr rfl rfl rfl

theorem readDisk_begins {call : DiskCall} {path : PathBuf} {f : Tree → Except IoError α} :
    Begins env relationship w (readDisk env call path f) :=
  fun _ before => before.congr rfl rfl rfl

theorem makeDir_begins {path : PathBuf} (leads : LeadsTo relationship.localBase path) :
    Begins env relationship w (makeDir env relationship.remotePath path) := by
  refine Triple.bind (Q := fun _ => PullBegun env relationship w) (note_triple fun next before => ?_)
    fun _ => changeDisk_begins
  obtain ⟨new, equal, all⟩ := before.log
  refine ⟨before.store, before.remote, _ :: new, by rw [equal, List.cons_append], fun event inside => ?_⟩
  rcases List.mem_cons.mp inside with rfl | later
  · exact ⟨path, rfl, leads⟩
  · exact all event later

theorem unlessDir_begins {path : PathBuf} {error : IoError} :
    Begins env relationship w (unlessDir env path error) :=
  Triple.bind readDisk_begins fun r => by
    rcases r with error | _ | _ <;> exact Triple.ret fun _ before => before

theorem createDirs_begins (parts : List Component) (prefixed : parts.reverse <+: components relationship.localBase) :
    Begins env relationship w (createDirs env relationship.remotePath parts) := by
  induction parts with
  | nil => exact Triple.ret fun _ before => before
  | cons last above ih =>
      have leads : LeadsTo relationship.localBase (ofComponents (last :: above).reverse) := ⟨_, prefixed, rfl⟩
      have shorter : above.reverse <+: components relationship.localBase := by
        rw [List.reverse_cons] at prefixed
        exact (List.prefix_append _ _).trans prefixed
      refine Triple.bind (makeDir_begins leads) fun r => ?_
      cases r with
      | ok _ => exact Triple.ret fun _ before => before
      | error error =>
          dsimp only
          split
          · refine Triple.bind (ih shorter) fun r => ?_
            cases r with
            | error error => exact Triple.ret fun _ before => before
            | ok _ =>
                refine Triple.bind (makeDir_begins leads) fun r => ?_
                cases r with
                | ok _ => exact Triple.ret fun _ before => before
                | error error => exact unlessDir_begins
          · exact unlessDir_begins

theorem ensureLocalBase_begins : Begins env relationship w (ensureLocalBase env relationship) := by
  refine Triple.bind readDisk_begins fun r => ?_
  cases r with
  | ok _ => exact Triple.ret fun _ before => before
  | error error =>
      refine orFail_triple (Triple.strengthen (createDirs_begins _ ?_) fun r next before => ?_)
      · rw [List.reverse_reverse]
      · cases r <;> exact before

theorem runPull_triple {x : PullProgram ρ Unit} {Q : PullResult → World ρ → Prop}
    {E : ClientError → World ρ → Prop} (triple : Triple (· = PullState.start w) x
      (fun _ s => Q s.result s.world) (fun e s => E e s.world)) : Triple (· = w) (runPull x) Q E := by
  intro start equal
  subst equal
  have outcome := triple _ rfl
  unfold runPull
  rcases ended : x (PullState.start start) with ⟨result, s⟩
  rw [ended] at outcome
  cases result <;> exact outcome

/-- What holds of every pull that has been offered its diff holds of every pull. The disk may be known to be
as a condition says that the making of the base keeps. -/
theorem pullSync_triple {others : List SyncRelationship} {Q : PullResult → World ρ → Prop}
    {E : ClientError → World ρ → Prop} {I : Tree → Prop} (first : I w.disk)
    (kept : Keeping (fun next : World ρ => I next.disk) (ensureLocalBase env relationship) fun _ => True)
    (early : ∀ e next remote, PullBegun env relationship w next → I next.disk → E e { next with remote := remote })
    (late : ∀ config diff next, (env.engine.blobConfig w.remote).1 = .ok config → offeredDiff env w = .ok diff →
      PullBegun env relationship w next → I next.disk → Triple (· = PullState.start { next with
        remote := (env.engine.syncDiff (w.store.checkpoint.map SyncCheckpoint.remoteRootHash) next.remote).2 })
      (applyDiff env ⟨relationship, others, config⟩ diff)
      (fun _ s => Q s.result s.world) (fun e s => E e s.world)) :
    Triple (· = w) (pullSync env relationship others) Q E := by
  have stop : ∀ e next, PullBegun env relationship w next ∧ I next.disk → E e next :=
    fun e next begun => early e next next.remote begun.1 begun.2
  have start : PullBegun env relationship w { w with remote := (env.engine.blobConfig w.remote).2 } :=
    ⟨rfl, rfl, [], rfl, fun _ inside => (List.not_mem_nil inside).elim⟩
  refine Triple.bind (Q := fun config next => (PullBegun env relationship w next ∧ I next.disk) ∧
    (env.engine.blobConfig w.remote).1 = .ok config) ?_ fun config => ?_
  · refine callRemote_triple ?_ ?_
    · rintro _ config rfl answered
      exact ⟨⟨start, first⟩, answered⟩
    · rintro _ e rfl -
      exact stop e _ ⟨start, first⟩
  refine Triple.assume (fun _ holds => holds.2) fun configured => ?_
  refine Triple.weaken (P := fun next => PullBegun env relationship w next ∧ I next.disk) ?_ fun _ holds => holds.1
  refine Triple.bind (Q := fun _ next => PullBegun env relationship w next ∧ I next.disk) ?_ fun _ => ?_
  · refine ((ensureLocalBase_begins.weaken fun _ holds => holds.1).both (Triple.weaken kept fun _ holds => holds.2)).conseq
      (fun _ => id) ?_ fun e next holds => stop e next holds
    exact fun _ _ holds => ⟨holds.1, holds.2.1⟩
  refine Triple.bind (Q := fun checkpoint next => (PullBegun env relationship w next ∧ I next.disk) ∧
    checkpoint = w.store.checkpoint) ?_ fun checkpoint => ?_
  · intro next before
    unfold getCheckpoint readStore
    split
    · exact stop _ _ ⟨before.1.congr rfl rfl rfl, before.2⟩
    · exact ⟨⟨before.1.congr rfl rfl rfl, before.2⟩, by rw [before.1.store]⟩
  refine Triple.assume (fun _ holds => holds.2) fun stored => ?_
  subst stored
  refine Triple.fix fun next begun => ?_
  refine Triple.bind (Q := fun diff last => offeredDiff env w = .ok diff ∧ last = { next with
    remote := (env.engine.syncDiff (w.store.checkpoint.map SyncCheckpoint.remoteRootHash) next.remote).2 }) ?_
    fun diff => ?_
  · refine callRemote_triple ?_ ?_
    · rintro _ diff rfl answered
      refine ⟨?_, rfl⟩
      rw [offeredDiff, ← begun.1.1.remote]
      exact answered
    · rintro _ e rfl -
      exact early e _ _ begun.1.1 begun.1.2
  · refine Triple.assume (fun _ holds => holds.1) fun offered => ?_
    refine Triple.fix fun last holds => ?_
    obtain ⟨-, rfl⟩ := holds
    exact runPull_triple (late config diff next configured offered begun.1.1 begun.1.2)

end Begin

/-- A pull does what the changes of its diff let it do, and it makes its base. -/
theorem pullSync_framed {relationship : SyncRelationship} {others : List SyncRelationship} {w : World ρ}
    {scope : PullScope}
    (base : ∀ path, LeadsTo relationship.localBase path → scope.change relationship.remotePath .directory path)
    (covers : ∀ config diff, offeredDiff env w = .ok diff →
      scope.Covers ((PullContext.mk relationship others config).scope env.globMatch diff.changes)) :
    PullFramed scope w (pullSync env relationship others w).2 := by
  have run : Triple (· = w) (pullSync env relationship others) (fun _ next => PullFramed scope w next)
      (fun _ next => PullFramed scope w next) := by
    refine pullSync_triple (I := fun _ => True) trivial (Triple.trivially (fun _ _ => ⟨trivial, trivial⟩) fun _ _ => trivial)
      (fun e next remote begun _ => (begun.framed base).congr rfl rfl)
      fun config diff next configured offered begun _ => ?_
    have before := begun.framed base
    have apply : PullKeeps ((PullContext.mk relationship others config).scope env.globMatch diff.changes)
        { next with remote := (env.engine.syncDiff (w.store.checkpoint.map SyncCheckpoint.remoteRootHash) next.remote).2 }
        (applyDiff env ⟨relationship, others, config⟩ diff) fun _ => True :=
      keeps_bind pullChanges_keeps fun _ _ => keeps_onDisk saveCheckpoint_framed
    have after : ∀ last, PullFramed ((PullContext.mk relationship others config).scope env.globMatch diff.changes)
        { next with remote := (env.engine.syncDiff (w.store.checkpoint.map SyncCheckpoint.remoteRootHash) next.remote).2 }
        last → PullFramed scope w last := by
      intro last framed
      obtain ⟨new, equal, all⟩ := (framed.mono (covers config diff offered)).log
      obtain ⟨old, first, known⟩ := before.log
      refine ⟨⟨new ++ old, by rw [equal, first, List.append_assoc], fun event inside => ?_⟩, fun path stored gone => ?_,
        fun path inside => ((framed.mono (covers config diff offered)).fresh path inside).elim (before.fresh path) Or.inr⟩
      · exact (List.mem_append.mp inside).elim (all event) (known event)
      · exact ((framed.mono (covers config diff offered)).records path stored gone).trans
          (before.records path stored gone)
    refine apply.conseq ?_ (fun _ s holds => after _ holds.1) fun _ s holds => after _ holds
    rintro _ rfl
    exact PullFramed.refl _
  exact run.reached rfl

end AeordbSync

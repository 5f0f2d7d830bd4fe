import AeordbSync.Pull.Containment

namespace AeordbSync
open Characters OsPath FileSystem Effect

variable {ρ α β : Type} {env : Env ρ} {view : ρ → Text → Option RemoteEntry} {there : Text → Option RemoteEntry}

theorem keeping_then {σ : Type} {P : σ → Prop} {x : Proc σ ClientError α} {f : α → Proc σ ClientError β}
    (first : Keeping P x fun _ => True) (second : ∀ a, Keeping P (f a) fun _ => True) :
    Keeping P (x >>= f) fun _ => True :=
  Keeping.bind first fun a _ => second a

/-- The program leaves what the remote holds as it is. -/
abbrev RemoteKept (view : ρ → Text → Option RemoteEntry) (there : Text → Option RemoteEntry) (x : Program ρ α) : Prop :=
  Keeping (fun w => view w.remote = there) x fun _ => True

abbrev PullKept (view : ρ → Text → Option RemoteEntry) (there : Text → Option RemoteEntry) (x : PullProgram ρ α) : Prop :=
  Keeping (fun s => view s.world.remote = there) x fun _ => True

namespace RemoteKept

theorem attempt {x : Program ρ α} (kept : RemoteKept view there x) : RemoteKept view there (Proc.attempt x) :=
  (Keeping.attempt kept).weaken fun _ _ => trivial

theorem note {event : Event ρ} : RemoteKept view there (note event) :=
  note_triple fun _ before => ⟨before, trivial⟩

theorem readDisk {call : DiskCall} {path : PathBuf} {f : Tree → Except IoError α} :
    RemoteKept view there (readDisk env call path f) :=
  fun _ before => ⟨before, trivial⟩

theorem changeDisk {call : DiskCall} {path : PathBuf} {f : Int → Tree → Except IoError (α × Tree)} :
    RemoteKept view there (changeDisk env call path f) :=
  changeDisk_triple (fun _ _ before _ => ⟨before, trivial⟩) fun _ _ _ before _ => ⟨before, trivial⟩

theorem orFail {x : Program ρ (Except IoError α)} (kept : RemoteKept view there x) : RemoteKept view there (orFail x) :=
  keeping_then kept fun r => by
    cases r with
    | ok a => exact Keeping.ret trivial
    | error error => exact Keeping.throw

theorem writeStore {f : MetadataStore → MetadataStore} {events : ρ → List (Event ρ)} :
    RemoteKept view there (writeStore env f events) :=
  writeStore_triple (fun _ before => ⟨before, trivial⟩) fun _ _ before => before

theorem now : RemoteKept view there (now env) := fun _ before => ⟨before, trivial⟩

theorem arrange {xs : List α} : RemoteKept view there (arrange env xs) := fun _ before => ⟨before, trivial⟩

/-- A call of the engine leaves the remote as it is when it does so on every state of the engine. -/
theorem callRemote {x : Proc ρ ClientError α} (silent : ∀ remote, view (x remote).2 = view remote) :
    RemoteKept view there (callRemote x) :=
  callRemote_triple (fun _ _ before _ => ⟨(silent _).trans before, trivial⟩) fun _ _ before _ => (silent _).trans before

theorem makeDir {entry : Text} {path : PathBuf} : RemoteKept view there (makeDir env entry path) :=
  keeping_then note fun _ => changeDisk

theorem unlessDir {path : PathBuf} {error : IoError} : RemoteKept view there (unlessDir env path error) :=
  keeping_then readDisk fun r => by
    rcases r with error | _ | _ <;> exact Keeping.ret trivial

theorem createDirs {entry : Text} (parts : List Component) : RemoteKept view there (createDirs env entry parts) := by
  induction parts with
  | nil => exact Keeping.ret trivial
  | cons last above ih =>
      refine keeping_then makeDir fun r => ?_
      cases r with
      | ok _ => exact Keeping.ret trivial
      | error error =>
          refine Keeping.ite (fun _ => keeping_then ih fun r => ?_) fun _ => unlessDir
          cases r with
          | error error => exact Keeping.ret trivial
          | ok _ =>
              refine keeping_then makeDir fun r => ?_
              cases r with
              | ok _ => exact Keeping.ret trivial
              | error error => exact unlessDir

theorem createParent {entry : Text} {path : PathBuf} : RemoteKept view there (createParent env entry path) := by
  unfold AeordbSync.createParent
  split
  · exact Keeping.ret trivial
  · exact createDirs _

theorem hashLocalFileChunks {config : BlobConfig} {path : PathBuf} :
    RemoteKept view there (hashLocalFileChunks env config path) := by
  refine keeping_then readDisk fun r => ?_
  cases r with
  | error error => exact Keeping.ret trivial
  | ok _ =>
      refine Keeping.ite (fun _ => Keeping.ret trivial) fun _ => keeping_then readDisk fun r => ?_
      cases r <;> exact Keeping.ret trivial

theorem fileMtime {path : PathBuf} : RemoteKept view there (fileMtime env path) := by
  refine keeping_then readDisk fun r => ?_
  cases r with
  | error error => exact Keeping.ret trivial
  | ok time => exact Keeping.ite (fun _ => Keeping.ret trivial) fun _ => Keeping.ret trivial

theorem fetchBatches (frame : EngineFrame env.engine view) (batches : List (List Text)) :
    RemoteKept view there (fetchBatches env batches) := by
  induction batches with
  | nil => exact Keeping.ret trivial
  | cons batch rest ih =>
      refine keeping_then (attempt (callRemote (frame.syncChunks_view batch))) fun r => ?_
      cases r with
      | error error => exact Keeping.ret trivial
      | ok pairs => exact keeping_then ih fun _ => Keeping.ret trivial

theorem openLocal {path : PathBuf} {chunks : List LocalChunk} : RemoteKept view there (openLocal env path chunks) := by
  refine Keeping.ite (fun _ => Keeping.ret trivial) fun _ => keeping_then readDisk fun r => ?_
  cases r with
  | ok l => exact Keeping.ret trivial
  | error error => exact Keeping.ite (fun _ => Keeping.ret trivial) fun _ => Keeping.throw

theorem cleanupPartial {entry : Text} {path : PathBuf} : RemoteKept view there (cleanupPartial env entry path) :=
  keeping_then note fun _ => keeping_then changeDisk fun _ => Keeping.ret trivial

theorem orCleanup {entry : Text} {path : PathBuf} {x : Program ρ α} (kept : RemoteKept view there x) :
    RemoteKept view there (orCleanup env entry path x) :=
  keeping_then (attempt kept) fun r => by
    cases r with
    | ok a => exact Keeping.ret trivial
    | error error => exact keeping_then cleanupPartial fun _ => Keeping.throw

theorem chunkBytes {entry : Text} {path : PathBuf} {reader : Option Location} {chunks : List LocalChunk}
    {fetched : List (Text × Bytes)} {hash : Text} :
    RemoteKept view there (chunkBytes env entry path reader chunks fetched hash) := by
  unfold AeordbSync.chunkBytes
  split
  · exact Keeping.throw
  · exact orCleanup (keeping_then (orFail readDisk) fun _ => orFail readDisk)
  · exact Keeping.ret trivial
  · exact orCleanup Keeping.throw

theorem writeChunks {entry : Text} {path : PathBuf} {reader : Option Location} {chunks : List LocalChunk}
    {fetched : List (Text × Bytes)} {written : Location} (hashes : List Text) :
    RemoteKept view there (writeChunks env entry path reader chunks fetched written hashes) := by
  induction hashes with
  | nil => exact Keeping.ret trivial
  | cons hash rest ih =>
      refine keeping_then chunkBytes fun bytes => keeping_then ?_ fun _ => keeping_then ih fun _ => Keeping.ret trivial
      exact orCleanup (keeping_then note fun _ => orFail changeDisk)

theorem assembleFile {fetched : List (Text × Bytes)} {plan : FilePlan} :
    RemoteKept view there (assembleFile env fetched plan) := by
  refine keeping_then openLocal fun reader => ?_
  refine keeping_then (keeping_then note fun _ => orFail changeDisk) fun written => ?_
  refine keeping_then (writeChunks _) fun content => keeping_then ?_ fun _ => Keeping.ret trivial
  exact orCleanup (keeping_then (orFail readDisk) fun _ => keeping_then note fun _ => orFail changeDisk)

theorem removeLocal {entry : Text} {path : PathBuf} : RemoteKept view there (removeLocal env entry path) :=
  keeping_then note fun _ => changeDisk

theorem createLocalSymlink {entry : RemoteSyncSymlinkEntry} {path : PathBuf} :
    RemoteKept view there (createLocalSymlink env entry path) := by
  have clear : RemoteKept view there (clearPlace env entry.path path) := keeping_then readDisk fun r => by
    cases r with
    | error error => exact Keeping.ret trivial
    | ok _ => exact keeping_then removeLocal fun _ => Keeping.ret trivial
  exact keeping_then clear fun _ => keeping_then note fun _ => changeDisk

theorem onDisk {x : Program ρ α} (kept : RemoteKept view there x) : PullKept view there (onDisk x) :=
  Keeping.zoom (fun _ _ => rfl) kept

end RemoteKept

namespace PullKept

theorem attempt {x : PullProgram ρ α} (kept : PullKept view there x) : PullKept view there (Proc.attempt x) :=
  (Keeping.attempt kept).weaken fun _ _ => trivial

/-- Counters and messages are no part of the remote. -/
theorem modify {f : PullState ρ → PullState ρ} (same : ∀ s, (f s).world = s.world) :
    PullKept view there (Proc.modify f) :=
  Keeping.modify fun _ before => by
    rw [same]
    exact before

theorem storeMeta {what : String} {record : FileSyncMeta} : PullKept view there (storeMeta env what record) := by
  have stored : RemoteKept view there (setFileMeta env record) :=
    setFileMetasBatch_triple (fun _ _ before => ⟨before, trivial⟩) (fun _ before => ⟨before, trivial⟩)
      fun _ _ before => before
  refine keeping_then (attempt (RemoteKept.onDisk stored)) fun r => ?_
  cases r with
  | ok _ => exact Keeping.ret trivial
  | error error => exact modify fun _ => rfl

theorem forgetDeleted {what : String} {path : Text} : PullKept view there (forgetDeleted env what path) := by
  have gone : RemoteKept view there (deleteFileMeta env path) := RemoteKept.writeStore
  refine keeping_then (keeping_then (attempt (RemoteKept.onDisk gone)) fun r => ?_) fun _ => modify fun _ => rfl
  cases r with
  | ok _ => exact Keeping.ret trivial
  | error error => exact modify fun _ => rfl

theorem deleteLocal {ctx : PullContext} {follow : Bool} {failure what : String} {path : Text} :
    PullKept view there (deleteLocal env ctx follow failure what path) := by
  refine Keeping.ite (fun _ => Keeping.ret trivial) fun _ => keeping_then (RemoteKept.onDisk RemoteKept.readDisk) fun r => ?_
  cases r with
  | error error => exact forgetDeleted
  | ok node =>
      refine keeping_then (RemoteKept.onDisk RemoteKept.removeLocal) fun r => ?_
      cases r with
      | error error => exact modify fun _ => rfl
      | ok _ => exact forgetDeleted

theorem planEntry {ctx : PullContext} {entry : RemoteSyncFileEntry} : PullKept view there (planEntry env ctx entry) := by
  have skip : PullKept view there (do Proc.modify PullState.skipped; pure none : PullProgram ρ (Option FilePlan)) :=
    keeping_then (modify fun _ => rfl) fun _ => Keeping.ret trivial
  refine Keeping.ite (fun _ => skip) fun _ => Keeping.ite (fun _ => skip) fun _ => ?_
  refine keeping_then (RemoteKept.onDisk RemoteKept.createParent) fun r => ?_
  cases r with
  | error error => exact keeping_then (modify fun _ => rfl) fun _ => Keeping.ret trivial
  | ok _ =>
      refine keeping_then (RemoteKept.onDisk RemoteKept.hashLocalFileChunks) fun r => ?_
      cases r <;> exact Keeping.ret trivial

theorem planEntries {ctx : PullContext} (entries : List RemoteSyncFileEntry) :
    PullKept view there (planEntries env ctx entries) := by
  induction entries with
  | nil => exact Keeping.ret trivial
  | cons entry rest ih =>
      exact keeping_then planEntry fun _ => keeping_then ih fun _ => Keeping.ret trivial

theorem recordPulled {plan : FilePlan} {size : Nat} {contentHash : Text} :
    PullKept view there (recordPulled env plan size contentHash) :=
  keeping_then (RemoteKept.onDisk RemoteKept.now) fun _ => keeping_then (RemoteKept.onDisk RemoteKept.fileMtime) fun _ =>
    keeping_then storeMeta fun _ => modify fun _ => rfl

theorem assemblePlan {fetched : List (Text × Bytes)} {fetchError : Option Text} {plan : FilePlan} :
    PullKept view there (assemblePlan env fetched fetchError plan) := by
  cases fetchError with
  | some error => exact modify fun _ => rfl
  | none =>
      refine keeping_then (attempt (RemoteKept.onDisk RemoteKept.assembleFile)) fun r => ?_
      cases r with
      | ok pair => exact recordPulled
      | error error => exact modify fun _ => rfl

theorem pullSymlink {ctx : PullContext} {entry : RemoteSyncSymlinkEntry} :
    PullKept view there (pullSymlink env ctx entry) := by
  refine Keeping.ite (fun _ => Keeping.ret trivial) fun _ => keeping_then (RemoteKept.onDisk RemoteKept.createParent) fun r => ?_
  cases r with
  | error error => exact modify fun _ => rfl
  | ok _ =>
      refine keeping_then (RemoteKept.onDisk RemoteKept.createLocalSymlink) fun r => ?_
      cases r with
      | error error => exact modify fun _ => rfl
      | ok _ => exact keeping_then (RemoteKept.onDisk RemoteKept.now) fun _ => keeping_then storeMeta fun _ => modify fun _ => rfl

/-- Of the changes only the chunks are asked for. -/
theorem pullChanges (frame : EngineFrame env.engine view) {ctx : PullContext} {changes : RemoteSyncChanges} :
    PullKept view there (pullChanges env ctx changes) := by
  have files : PullKept view there (pullFiles env ctx changes.files) := by
    refine keeping_then (planEntries _) fun plans => keeping_then (RemoteKept.onDisk ?_) fun fetched => ?_
    · exact keeping_then RemoteKept.arrange fun needed => RemoteKept.fetchBatches frame _
    · exact Keeping.forEach fun plan _ => assemblePlan
  refine keeping_then files fun _ => keeping_then ?_ fun _ => keeping_then ?_ fun _ => ?_
  · exact Keeping.when fun _ => Keeping.forEach fun deleted _ => deleteLocal
  · exact Keeping.forEach fun entry _ => pullSymlink
  · exact Keeping.when fun _ => Keeping.forEach fun deleted _ => deleteLocal

end PullKept

/-- A pull leaves what the remote holds as it is, whether it returns or fails. -/
theorem pullSync_remote (frame : EngineFrame env.engine view) (relationship : SyncRelationship)
    (others : List SyncRelationship) (w : World ρ) :
    view (pullSync env relationship others w).2.remote = view w.remote := by
  have base : RemoteKept view (view w.remote) (ensureLocalBase env relationship) := by
    refine keeping_then RemoteKept.readDisk fun r => ?_
    cases r with
    | ok _ => exact Keeping.ret trivial
    | error error => exact RemoteKept.orFail (RemoteKept.createDirs _)
  have checkpoint : RemoteKept view (view w.remote) (getCheckpoint env) := by
    intro w before
    unfold getCheckpoint readStore
    split
    · exact before
    · exact ⟨before, trivial⟩
  have run : RemoteKept view (view w.remote) (pullSync env relationship others) := by
    refine keeping_then (RemoteKept.callRemote frame.blobConfig_view) fun config => keeping_then base fun _ => ?_
    refine keeping_then checkpoint fun since => keeping_then (RemoteKept.callRemote (frame.syncDiff_view _)) fun diff => ?_
    intro start before
    have applied : PullKept view (view w.remote) (applyDiff env ⟨relationship, others, config⟩ diff) :=
      keeping_then (PullKept.pullChanges frame) fun _ =>
        RemoteKept.onDisk (keeping_then RemoteKept.now fun _ => RemoteKept.writeStore)
    have outcome := applied (PullState.start start) before
    unfold runPull
    rcases ended : applyDiff env ⟨relationship, others, config⟩ diff (PullState.start start) with ⟨result, s⟩
    rw [ended] at outcome
    cases result <;> exact outcome
  have outcome := run w rfl
  rcases ended : pullSync env relationship others w with ⟨result, next⟩
  rw [ended] at outcome
  cases result with
  | ok _ => exact outcome.1
  | error _ => exact outcome

end AeordbSync

import AeordbSync.Pull.Assemble

namespace AeordbSync
open Characters OsPath FileSystem Effect

variable {ρ α : Type} (env : Env ρ)

def removeLocal (entry : Text) (path : PathBuf) : Program ρ (Except IoError Unit) := do
  note (.localChange entry .removal path)
  changeDisk env .removeFile path fun _ disk => (disk.removeFile path).map fun left => ((), left)

def forgetMeta (what : String) (path : Text) : PullProgram ρ Unit := do
  match ← Proc.attempt (onDisk (deleteFileMeta env path)) with
  | .ok () => pure ()
  | .error error => Proc.modify (PullState.warned (text what ++ path ++ text ": " ++ error.display))

/-- The record goes whether or not there was a local entry. -/
def forgetDeleted (what : String) (path : Text) : PullProgram ρ Unit := do
  forgetMeta env what path
  Proc.modify PullState.deleted

/-- A file counts as present when the end of its symlinks exists, a symlink when it is there itself. -/
def deleteLocal (ctx : PullContext) (follow : Bool) (failure what : String) (path : Text) :
    PullProgram ρ Unit := do
  if ctx.isExcluded path then pure ()
  else
    let localPath := ctx.localPathOf path
    match ← onDisk (readDisk env (if follow then .exists else .symlinkMetadata) localPath
        fun disk => disk.metadata follow localPath) with
    | .error _ => forgetDeleted env what path
    | .ok _ => match ← onDisk (removeLocal env path localPath) with
      | .error error => Proc.modify (PullState.failed (failedOn env failure localPath error.text))
      | .ok () => forgetDeleted env what path

def deleteLocalFile (ctx : PullContext) (deleted : RemoteSyncDeletedEntry) : PullProgram ρ Unit :=
  deleteLocal env ctx true "failed to delete " "failed to delete metadata for " deleted.path

def deleteLocalSymlink (ctx : PullContext) (deleted : RemoteSyncDeletedEntry) : PullProgram ρ Unit :=
  deleteLocal env ctx false "failed to delete symlink " "failed to delete symlink metadata for " deleted.path

def pulledSymlinkMeta (entry : RemoteSyncSymlinkEntry) (time : Int) : FileSyncMeta :=
  ⟨entry.path, entry.hash, 0, time, .synced, time⟩

/-- What stands in the place of the symlink is removed without asking for the outcome. -/
def clearPlace (entry : Text) (path : PathBuf) : Program ρ Unit := do
  match ← readDisk env .symlinkMetadata path fun disk => disk.metadata false path with
  | .error _ => pure ()
  | .ok _ =>
      let _ ← removeLocal env entry path
      pure ()

def createLocalSymlink (entry : RemoteSyncSymlinkEntry) (path : PathBuf) : Program ρ (Except IoError Unit) := do
  clearPlace env entry.path path
  note (.localChange entry.path .symlink path)
  changeDisk env .symlink path fun now disk =>
    (disk.symlink now (osText entry.target) path).map fun linked => ((), linked)

def recordSymlink (entry : RemoteSyncSymlinkEntry) : PullProgram ρ Unit := do
  let time ← onDisk (now env)
  storeMeta env "failed to store symlink metadata for " (pulledSymlinkMeta entry time)
  Proc.modify PullState.pulledSymlink

def pullSymlink (ctx : PullContext) (entry : RemoteSyncSymlinkEntry) : PullProgram ρ Unit := do
  if ctx.isExcluded entry.path then pure ()
  else
    let path := ctx.localPathOf entry.path
    match ← onDisk (createParent env entry.path path) with
    | .error error => Proc.modify (PullState.failed
        (failedOn env "failed to create parent directory for symlink " path error.text))
    | .ok () => match ← onDisk (createLocalSymlink env entry path) with
      | .error error => Proc.modify (PullState.failed (failedOn env "failed to create symlink " path error.text))
      | .ok () => recordSymlink env entry

def RemoteSyncChanges.files (changes : RemoteSyncChanges) : List RemoteSyncFileEntry :=
  changes.filesAdded ++ changes.filesModified

def RemoteSyncChanges.symlinks (changes : RemoteSyncChanges) : List RemoteSyncSymlinkEntry :=
  changes.symlinksAdded ++ changes.symlinksModified

def pullFiles (ctx : PullContext) (entries : List RemoteSyncFileEntry) : PullProgram ρ Unit := do
  let plans ← planEntries env ctx entries
  let fetched ← onDisk (fetchChunks env plans)
  Proc.forEach plans (assemblePlan env fetched.1 fetched.2)

def deleteFiles (ctx : PullContext) (deleted : List RemoteSyncDeletedEntry) : PullProgram ρ Unit :=
  Proc.when ctx.relationship.deletePropagation.remoteToLocal (Proc.forEach deleted (deleteLocalFile env ctx))

def deleteSymlinks (ctx : PullContext) (deleted : List RemoteSyncDeletedEntry) : PullProgram ρ Unit :=
  Proc.when ctx.relationship.deletePropagation.remoteToLocal (Proc.forEach deleted (deleteLocalSymlink env ctx))

def pullChanges (ctx : PullContext) (changes : RemoteSyncChanges) : PullProgram ρ Unit := do
  pullFiles env ctx changes.files
  deleteFiles env ctx changes.filesDeleted
  Proc.forEach changes.symlinks (pullSymlink env ctx)
  deleteSymlinks env ctx changes.symlinksDeleted

/-- The checkpoint moves on, whatever has failed. -/
def saveCheckpoint (relationship : SyncRelationship) (rootHash : Text) : Program ρ Unit := do
  let time ← now env
  setCheckpoint env ⟨relationship.id, rootHash, time⟩

structure PullResult where
  filesPulled : Nat
  filesSkipped : Nat
  filesFailed : Nat
  filesDeleted : Nat
  symlinksPulled : Nat
  totalBytes : Nat
  errors : List Text

def PullState.start (w : World ρ) : PullState ρ := ⟨w, 0, 0, 0, 0, 0, 0, []⟩

def PullState.result (s : PullState ρ) : PullResult :=
  ⟨s.filesPulled, s.filesSkipped, s.filesFailed, s.filesDeleted, s.symlinksPulled, s.totalBytes, s.errors⟩

/-- The variables of the run begin empty and end with its result. -/
def runPull (x : PullProgram ρ Unit) : Program ρ PullResult := fun w =>
  match x (PullState.start w) with
  | (.ok (), s) => (.ok s.result, s.world)
  | (.error error, s) => (.error error, s.world)

/-- The directory that holds the relationship's tree is made for its own sake. -/
def ensureLocalBase (relationship : SyncRelationship) : Program ρ Unit := do
  match ← readDisk env .exists relationship.localBase
      fun disk => disk.metadata true relationship.localBase with
  | .ok _ => pure ()
  | .error _ => orFail (createDirAll env relationship.remotePath relationship.localBase)

def applyDiff (ctx : PullContext) (diff : RemoteSyncDiffResponse) : PullProgram ρ Unit := do
  pullChanges env ctx diff.changes
  onDisk (saveCheckpoint env ctx.relationship diff.rootHash)

def pullSync (relationship : SyncRelationship) (others : List SyncRelationship) : Program ρ PullResult := do
  let config ← callRemote env.engine.blobConfig
  ensureLocalBase env relationship
  let checkpoint ← getCheckpoint env
  let diff ← callRemote (env.engine.syncDiff (checkpoint.map SyncCheckpoint.remoteRootHash))
  runPull (applyDiff env ⟨relationship, others, config⟩ diff)

end AeordbSync

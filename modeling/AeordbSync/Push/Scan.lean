import AeordbSync.ContentType
import AeordbSync.Push.Flush

namespace AeordbSync
open Characters OsPath FileSystem Effect

variable {ρ : Type} (env : Env ρ)

/-- An excluded entry is neither listed nor entered. -/
def walkEntry (exclusions : List PathBuf) (enter : PathBuf → Program ρ (List PathBuf))
    (path : PathBuf) : Node → Program ρ (List PathBuf)
  | .special => pure []
  | .directory => if isLocalExcludedByChild path exclusions then pure [] else enter path
  | _ => if isLocalExcludedByChild path exclusions then pure [] else pure [path]

/-- A walk lists what it finds and enters the directories that no child relationship owns. -/
def walkEntries (exclusions : List PathBuf) (enter : PathBuf → Program ρ (List PathBuf))
    (dir : PathBuf) : List OsText → Program ρ (List PathBuf)
  | [] => pure []
  | name :: rest => do
      orFail (readDisk env .dirEntry dir fun _ => .ok ())
      let path := join dir name
      let node ← orFail (readDisk env .fileType path fun disk => disk.metadata false path)
      let found ← walkEntry exclusions enter path node
      let others ← walkEntries exclusions enter dir rest
      pure (found ++ others)

/-- The depth of the tree bounds the recursion. -/
def walkRecursive (exclusions : List PathBuf) : Nat → PathBuf → Program ρ (List PathBuf)
  | 0, _ => pure []
  | depth + 1, dir => do
      let names ← orFail (readDisk env .readDir dir fun disk => disk.readDir dir)
      let listed ← arrange env names
      walkEntries env exclusions (walkRecursive exclusions depth) dir listed

def walkdir (root : PathBuf) (exclusions : List PathBuf) : Program ρ (List PathBuf) := do
  let w ← Proc.get
  walkRecursive env exclusions (w.disk.depth + 1) root

/-- What stays fixed during one push run. -/
structure PushContext where
  relationship : SyncRelationship
  others : List SyncRelationship
  mode : PushScanMode
  config : BlobConfig
  migration : Option SyncPathMigration

namespace PushContext

def localBase (ctx : PushContext) : PathBuf := ctx.relationship.localBase

def remotePathOf (ctx : PushContext) (relative : List Component) : Text :=
  computeRemotePath relative ctx.relationship.remotePath

def oldRemotePathOf (ctx : PushContext) (entryPath : PathBuf) : Option Text :=
  ctx.migration.bind (migrationOldRemotePathForEntry entryPath)

end PushContext

def canLiteFastSkip (mode : PushScanMode) (storedMeta : Option FileSyncMeta) (fileSize : Nat)
    (modifiedAt : Int) : Bool :=
  if mode ≠ .lite then false
  else match storedMeta with
    | some record => record.syncStatus = .synced ∧ record.size = fileSize ∧ record.modifiedAt = modifiedAt
    | none => false

def canLiteFastSkipSymlink (mode : PushScanMode) (storedMeta : Option FileSyncMeta)
    (contentHash : Text) : Bool :=
  if mode ≠ .lite then false
  else match storedMeta with
    | some record => record.syncStatus = .synced ∧ record.contentHash = contentHash
    | none => false

def needsHashSkipMetadataUpdate (record : FileSyncMeta) (fileSize : Nat) (modifiedAt : Int) : Bool :=
  record.syncStatus ≠ .synced ∨ record.size ≠ fileSize ∨ record.modifiedAt ≠ modifiedAt

def systemTimeError : IoError :=
  ⟨.other, text "system time error: second time provided was later than self"⟩

/-- A time before the epoch is an error. -/
def fileMtime (path : PathBuf) : Program ρ (Except ClientError Int) := do
  match ← readDisk env .modified path fun disk => disk.modified path with
  | .error error => pure (.error (.io error))
  | .ok time => if time < 0 then pure (.error (.io systemTimeError)) else pure (.ok time)

def metadataMtimeOrNow (modified : Int) : Program ρ Int :=
  if modified < 0 then now env else pure modified

namespace PushState

def saw (path : Text) (s : PushState ρ) : PushState ρ :=
  { s with seenRemotePaths := path :: s.seenRemotePaths }

def requested (request : PushFilePrepRequest) (s : PushState ρ) : PushState ρ :=
  { s with filePrepRequests := s.filePrepRequests ++ [request] }

def queuedSymlink (link : PendingSymlink) (s : PushState ρ) : PushState ρ :=
  { s with pendingSymlinks := s.pendingSymlinks ++ [link] }

end PushState

/-- The entry is counted as failed and the scan goes on. -/
def failEntry (ctx : PushContext) (message : Text) : PushProgram ρ Unit := do
  Proc.modify (PushState.failed message)
  completeEntry env ctx.config

def skipEntry (ctx : PushContext) : PushProgram ρ Unit := do
  Proc.modify PushState.skipped
  completeEntry env ctx.config

def failedOn (what : String) (path : PathBuf) (error : Text) : Text :=
  text what ++ env.debugPath path ++ text ": " ++ error

def scanSymlink (ctx : PushContext) (entryPath : PathBuf) (remotePath : Text) (modified : Int) :
    PushProgram ρ Unit := do
  Proc.modify (PushState.saw remotePath)
  match ← onWorld (readDisk env .readLink entryPath fun disk => disk.readLink entryPath) with
  | .error error => failEntry env ctx (failedOn env "failed to read symlink " entryPath error.text)
  | .ok found =>
      let target := toStringLossy found
      let contentHash := symlinkIdentityHash env.digest remotePath target
      let s ← Proc.get
      if canLiteFastSkipSymlink ctx.mode (s.metadataByPath.find remotePath) contentHash then
        skipEntry env ctx
      else
        let modifiedAt ← onWorld (metadataMtimeOrNow env modified)
        Proc.modify (PushState.queuedSymlink ⟨remotePath, target, contentHash, modifiedAt⟩)

def scanAccepted (ctx : PushContext) (entryPath : PathBuf) (relative : List Component)
    (fileSize : Nat) : PushProgram ρ Unit := do
  let remotePath := ctx.remotePathOf relative
  Proc.modify (PushState.saw remotePath)
  match ← onWorld (fileMtime env entryPath) with
  | .error error => failEntry env ctx (failedOn env "failed to get mtime for " entryPath error.display)
  | .ok mtime =>
      let s ← Proc.get
      let storedMeta := s.metadataByPath.find remotePath
      if canLiteFastSkip ctx.mode storedMeta fileSize mtime then skipEntry env ctx
      else Proc.modify (PushState.requested ⟨entryPath, remotePath, mtime,
        mimeFromExtension entryPath, storedMeta, ctx.oldRemotePathOf entryPath,
        computeLegacySeparatorRemotePath relative ctx.relationship.remotePath⟩)

/-- A file counts as seen only after its name has passed the filter. -/
def scanFile (ctx : PushContext) (entryPath : PathBuf) (relative : List Component)
    (fileSize : Nat) : PushProgram ρ Unit :=
  match (fileName entryPath).bind toStr? with
  | none => completeEntry env ctx.config
  | some filename =>
      if matchesFilter env.globMatch filename ctx.relationship.filter then
        scanAccepted env ctx entryPath relative fileSize
      else skipEntry env ctx

def scanEntry (ctx : PushContext) (entryPath : PathBuf) : PushProgram ρ Unit := do
  match ← onWorld (readDisk env .symlinkMetadata entryPath fun disk => disk.metadata false entryPath) with
  | .error error =>
      failEntry env ctx (failedOn env "failed to read metadata for " entryPath error.text)
  | .ok node => match stripPrefix entryPath ctx.localBase with
    | none => completeEntry env ctx.config
    | some relative => match node with
      | .symlink _ modified => scanSymlink env ctx entryPath (ctx.remotePathOf relative) modified
      | .file content _ => scanFile env ctx entryPath relative content.length
      | _ => completeEntry env ctx.config

end AeordbSync

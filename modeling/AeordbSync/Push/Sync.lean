import AeordbSync.Push.Scan

namespace AeordbSync
open Characters OsPath FileSystem Effect

variable {ρ : Type} (env : Env ρ)

namespace PushState

def moved (oldPath : Text) (record : FileSyncMeta) (s : PushState ρ) : PushState ρ :=
  { s with
    metadataByPath := (s.metadataByPath.remove oldPath).set record
    filesPushed := s.filesPushed + 1 }

def forgot (path : Text) (s : PushState ρ) : PushState ρ :=
  { s with metadataByPath := s.metadataByPath.remove path }

def alreadyThere (record : FileSyncMeta) (s : PushState ρ) : PushState ρ :=
  { s with
    metadataByPath := s.metadataByPath.set record
    filesSkipped := s.filesSkipped + 1 }

def queued (file : PendingPushFile) (config : BlobConfig) (s : PushState ρ) : PushState ρ :=
  { s with pendingBatch := s.pendingBatch.push file config }

def linked (record : FileSyncMeta) (s : PushState ρ) : PushState ρ :=
  { s with
    metadataByPath := s.metadataByPath.set record
    filesPushed := s.filesPushed + 1 }

def deletedRemote (s : PushState ρ) : PushState ρ := { s with filesDeleted := s.filesDeleted + 1 }

end PushState

def candidateOf (request : PushFilePrepRequest) (hash : Text) (size : Nat) : PendingPushFile :=
  ⟨request.entryPath, request.remotePath, hash, size, request.modifiedAt, request.contentType⟩

/-- The old record gives way to the new one after the remote has moved the file. -/
def recordMove (oldPath : Text) (file : PendingPushFile) : PushProgram ρ Unit := do
  let record ← onWorld (makeFileMeta env file)
  onWorld (deleteFileMeta env oldPath)
  onWorld (setFileMeta env record)
  Proc.modify (PushState.moved oldPath record)

/-- A move is tried only when the record and the remote both name the content of the file. -/
def tryMove (queryRoot : Text) (oldPath : Option Text) (file : PendingPushFile)
    (refused : Text → ClientError → PushProgram ρ Bool) : PushProgram ρ Bool := do
  let s ← Proc.get
  match oldPath with
  | none => pure false
  | some oldPath => match s.metadataByPath.find oldPath with
    | none => pure false
    | some source =>
        if oldPath ≠ file.remotePath ∧ source.contentHash = file.contentHash then
          match ← Proc.attempt (onWorld (callRemote
              (env.engine.remotePathHasContentHash queryRoot oldPath file.contentHash))) with
          | .ok true =>
              onWorld (note (.renamed oldPath file.remotePath))
              match ← Proc.attempt (onWorld (callRemote
                  (env.engine.renameFile oldPath file.remotePath))) with
              | .ok () =>
                  recordMove env oldPath file
                  pure true
              | .error error => refused oldPath error
          | _ => pure false
        else pure false

def failedToMigrate (oldPath newPath : Text) (error : ClientError) : Text :=
  text "failed to migrate remote " ++ oldPath ++ text " to " ++ newPath ++ text ": " ++ error.display

def forgetOldRecord (oldPath : Text) : PushProgram ρ Unit := do
  let s ← Proc.get
  if (s.metadataByPath.find oldPath).isSome then
    onWorld (deleteFileMeta env oldPath)
    Proc.modify (PushState.forgot oldPath)
  else pure ()

def recordTarget (oldPath : Text) (file : PendingPushFile) : PushProgram ρ Unit := do
  let record ← onWorld (makeFileMeta env file)
  forgetOldRecord env oldPath
  onWorld (setFileMeta env record)
  Proc.modify (PushState.alreadyThere record)

/-- The target of a migrated file may already hold its content. -/
def tryTarget (migration : Option SyncPathMigration) (oldPath : Option Text)
    (file : PendingPushFile) : PushProgram ρ Bool := do
  match migration, oldPath with
  | some migration, some oldPath =>
      match ← Proc.attempt (onWorld (callRemote (env.engine.remotePathHasContentHash
          migration.newRemotePath file.remotePath file.contentHash))) with
      | .ok true =>
          recordTarget env oldPath file
          pure true
      | _ => pure false
  | _, _ => pure false

def queueCandidate (ctx : PushContext) (file : PendingPushFile) : PushProgram ρ Unit := do
  let before ← Proc.get
  Proc.when (before.pendingBatch.shouldFlushBefore file ctx.config) (flushPushBatch env ctx.config)
  Proc.modify (PushState.queued file ctx.config)
  let after ← Proc.get
  Proc.when after.pendingBatch.shouldFlushNow (flushPushBatch env ctx.config)

def migrationRoot (ctx : PushContext) : Text :=
  match ctx.migration with
  | some migration => migration.oldRemotePath
  | none => text "/"

def pushUnrecorded (ctx : PushContext) (request : PushFilePrepRequest) (file : PendingPushFile) :
    PushProgram ρ Unit := do
  if ← tryMove env ctx.relationship.remotePath request.legacySeparatorRemotePath file
      fun _ _ => pure false then
    completeEntry env ctx.config
  else if ← tryMove env (migrationRoot ctx) request.migrationOldRemotePath file
      fun oldPath error => do
        Proc.modify (PushState.failed (failedToMigrate oldPath file.remotePath error))
        pure true then
    completeEntry env ctx.config
  else if ← tryTarget env ctx.migration request.migrationOldRemotePath file then
    completeEntry env ctx.config
  else
    queueCandidate env ctx file
    completeEntry env ctx.config

/-- A record with the same hash is only refreshed. -/
def pushRecorded (ctx : PushContext) (record : FileSyncMeta) (file : PendingPushFile) :
    PushProgram ρ Unit := do
  if record.contentHash = file.contentHash then
    if needsHashSkipMetadataUpdate record file.fileSize file.modifiedAt then
      let updated ← onWorld (makeFileMeta env file)
      Proc.modify (PushState.queueMeta updated)
      skipEntry env ctx
    else skipEntry env ctx
  else
    queueCandidate env ctx file
    completeEntry env ctx.config

def pushRequest (ctx : PushContext) (request : PushFilePrepRequest) : PushProgram ρ Unit := do
  match ← onWorld (hashFileContent env request.entryPath) with
  | .error message => failEntry env ctx message
  | .ok (hash, size) =>
      let file := candidateOf request hash size
      match request.storedMeta with
      | some record => pushRecorded env ctx record file
      | none => pushUnrecorded env ctx request file

def createLink (link : PendingSymlink) : Program ρ Bool := do
  note (.linked link.remotePath)
  callRemote (env.engine.createSymlink link.remotePath link.target)
  pure true

/-- The answer says whether the remote had to be changed. -/
def pushOneSymlink (mode : PushScanMode) (link : PendingSymlink) : Program ρ Bool := do
  if mode = .lite then
    match ← Proc.attempt (callRemote (env.engine.remoteSymlinkTarget link.remotePath)) with
    | .ok (some remoteTarget) =>
        if symlinkIdentityHash env.digest link.remotePath remoteTarget = link.contentHash then
          pure false
        else createLink env link
    | _ => createLink env link
  else createLink env link

def syncedSymlinkMeta (link : PendingSymlink) (time : Int) : FileSyncMeta :=
  ⟨link.remotePath, link.contentHash, 0, link.modifiedAt, .synced, time⟩

def pushSymlinks (ctx : PushContext) : List PendingSymlink → PushProgram ρ (List FileSyncMeta)
  | [] => pure []
  | link :: rest => do
      let outcome ← Proc.attempt (onWorld (pushOneSymlink env ctx.mode link))
      Proc.modify PushState.processed
      match outcome with
      | .ok pushed =>
          let time ← onWorld (now env)
          let record := syncedSymlinkMeta link time
          Proc.modify (if pushed then PushState.linked record else PushState.alreadyThere record)
          let others ← pushSymlinks ctx rest
          pure (record :: others)
      | .error error =>
          Proc.modify (PushState.failed
            (text "failed to push symlink " ++ link.remotePath ++ text ": " ++ error.display))
          pushSymlinks ctx rest

def pushPendingSymlinks (ctx : PushContext) : PushProgram ρ Unit := do
  let s ← Proc.get
  let links ← onWorld (arrange env s.pendingSymlinks)
  let updates ← pushSymlinks env ctx links
  onWorld (setFileMetasBatch env (coalesceFileMetas updates))

def dropStaleRecord (path : Text) : PushProgram ρ Unit := do
  onWorld (deleteFileMeta env path)
  Proc.modify (PushState.forgot path)

def cleanupUnseenMigrationMetadata (migration : SyncPathMigration) : PushProgram ρ Unit := do
  let s ← Proc.get
  let stale ← onWorld (arrange env (s.metadataByPath.paths.filter fun path =>
    isUnderRemoteBase path migration.oldRemotePath ∧ path ∉ s.seenRemotePaths))
  Proc.forEach stale (dropStaleRecord env)

def deleteRemote (path : Text) : PushProgram ρ Unit := do
  onWorld (note (.deleted path))
  match ← Proc.attempt (onWorld (callRemote (env.engine.deleteFile path))) with
  | .ok () =>
      onWorld (deleteFileMeta env path)
      Proc.modify PushState.deletedRemote
  | .error error =>
      Proc.modify (PushState.failed
        (text "failed to delete remote " ++ path ++ text ": " ++ error.display))

/-- The entry is recorded, was not seen, and no migration or child relationship explains it. -/
def isDeletedLocally (ctx : PushContext) (seen : List Text) (path : Text) : Bool :=
  decide (path ∉ seen) &&
    !(ctx.migration.any fun migration => isUnderRemoteBase path migration.oldRemotePath) &&
    !isExcludedByChild path (childExclusions ctx.relationship ctx.others)

def propagateDeletes (ctx : PushContext) : PushProgram ρ Unit := do
  let s ← Proc.get
  let recorded ← onWorld (arrange env s.metadataByPath.paths)
  Proc.forEach recorded fun path =>
    Proc.when (isDeletedLocally ctx s.seenRemotePaths path) (deleteRemote env path)

def cleanupMigration (ctx : PushContext) : PushProgram ρ Unit := do
  let s ← Proc.get
  match ctx.migration with
  | some migration =>
      Proc.when (s.errors = []) (cleanupUnseenMigrationMetadata env migration)
  | none => pure ()

def finishMigration (ctx : PushContext) : PushProgram ρ Unit := do
  let s ← Proc.get
  Proc.when (ctx.migration.isSome ∧ s.errors = []) (onWorld (clearPathMigration env))

def pushPreparedFiles (ctx : PushContext) : PushProgram ρ Unit := do
  let s ← Proc.get
  let requests ← onWorld (arrange env s.filePrepRequests)
  Proc.forEach requests (pushRequest env ctx)
  flushPushBatch env ctx.config
  flushPendingMetadataUpdates env

/-- The part of a push that follows the scan. -/
def pushScanned (ctx : PushContext) : PushProgram ρ Unit := do
  pushPreparedFiles env ctx
  pushPendingSymlinks env ctx
  cleanupMigration env ctx
  Proc.when ctx.relationship.deletePropagation.localToRemote (propagateDeletes env ctx)
  finishMigration env ctx

def pushEntries (ctx : PushContext) (entries : List PathBuf) : PushProgram ρ Unit := do
  Proc.forEach entries (scanEntry env ctx)
  pushScanned env ctx

structure PushResult where
  filesPushed : Nat
  filesSkipped : Nat
  filesFailed : Nat
  filesDeleted : Nat
  totalBytes : Nat
  errors : List Text

def PushState.start (records : Records) (w : World ρ) : PushState ρ :=
  ⟨w, 0, 0, 0, 0, 0, 0, [], records, [], .empty, [], [], []⟩

def PushState.result (s : PushState ρ) : PushResult :=
  ⟨s.filesPushed, s.filesSkipped, s.filesFailed, s.filesDeleted, s.totalBytes, s.errors⟩

/-- The variables of the run begin with the stored records and end with its result. -/
def runPush (records : Records) (x : PushProgram ρ Unit) : Program ρ PushResult := fun w =>
  match x (PushState.start records w) with
  | (.ok (), s) => (.ok s.result, s.world)
  | (.error error, s) => (.error error, s.world)

def requireLocalBase (relationship : SyncRelationship) : Program ρ Unit := do
  match ← readDisk env .exists relationship.localBase
      fun disk => disk.metadata true relationship.localBase with
  | .ok _ => pure ()
  | .error _ => Proc.throw (.configuration
      (text "local path does not exist: " ++ relationship.localPath))

def pushSync (relationship : SyncRelationship) (others : List SyncRelationship)
    (mode : PushScanMode) : Program ρ PushResult := do
  let config ← callRemote env.engine.blobConfig
  requireLocalBase env relationship
  let records ← listFileMetas env
  let migration ← getPathMigration env
  let entries ← walkdir env relationship.localBase (childLocalExclusions relationship others)
  runPush records (pushEntries env ⟨relationship, others, mode, config, migration⟩ entries)

end AeordbSync

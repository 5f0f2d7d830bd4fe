import AeordbSync.Push.Upload

namespace AeordbSync
open Characters OsPath FileSystem Effect

structure PushFilePrepRequest where
  entryPath : PathBuf
  remotePath : Text
  modifiedAt : Int
  contentType : Option Text
  storedMeta : Option FileSyncMeta
  migrationOldRemotePath : Option Text
  legacySeparatorRemotePath : Option Text

structure PendingSymlink where
  remotePath : Text
  target : Text
  contentHash : Text
  modifiedAt : Int

/-- The variables of one push run. -/
structure PushState (ρ : Type) where
  world : World ρ
  filesPushed : Nat
  filesSkipped : Nat
  filesFailed : Nat
  filesDeleted : Nat
  totalBytes : Nat
  processedEntries : Nat
  errors : List Text
  metadataByPath : Records
  seenRemotePaths : List Text
  pendingBatch : PushBatch
  pendingMetadataUpdates : List FileSyncMeta
  filePrepRequests : List PushFilePrepRequest
  pendingSymlinks : List PendingSymlink

abbrev PushProgram (ρ α : Type) := Proc (PushState ρ) ClientError α

variable {ρ α : Type}

namespace PushState

def withWorld (w : World ρ) (s : PushState ρ) : PushState ρ := { s with world := w }

def failed (message : Text) (s : PushState ρ) : PushState ρ :=
  { s with errors := s.errors ++ [message], filesFailed := s.filesFailed + 1 }

def skipped (s : PushState ρ) : PushState ρ := { s with filesSkipped := s.filesSkipped + 1 }

def queueMeta (record : FileSyncMeta) (s : PushState ρ) : PushState ρ :=
  { s with
    metadataByPath := s.metadataByPath.set record
    pendingMetadataUpdates := s.pendingMetadataUpdates ++ [record] }

/-- The uploaded files wait for one write of their records. -/
def uploaded (files : List PendingPushFile) (metas : List FileSyncMeta) (s : PushState ρ) :
    PushState ρ :=
  { s with
    metadataByPath := s.metadataByPath.setAll metas
    pendingMetadataUpdates := s.pendingMetadataUpdates ++ metas
    filesPushed := s.filesPushed + files.length
    totalBytes := s.totalBytes + (files.map PendingPushFile.fileSize).sum }

def tookBatch (s : PushState ρ) : PushState ρ := { s with pendingBatch := .empty }

def tookUpdates (s : PushState ρ) : PushState ρ := { s with pendingMetadataUpdates := [] }

def processed (s : PushState ρ) : PushState ρ := { s with processedEntries := s.processedEntries + 1 }

end PushState

def onWorld (x : Program ρ α) : PushProgram ρ α :=
  Proc.zoom PushState.world PushState.withWorld x

def syncedMeta (file : PendingPushFile) (time : Int) : FileSyncMeta :=
  ⟨file.remotePath, file.contentHash, file.fileSize, file.modifiedAt, .synced, time⟩

variable (env : Env ρ)

def makeFileMeta (file : PendingPushFile) : Program ρ FileSyncMeta := do
  let time ← now env
  pure (syncedMeta file time)

def makeFileMetas : List PendingPushFile → Program ρ (List FileSyncMeta)
  | [] => pure []
  | file :: rest => do
      let record ← makeFileMeta env file
      let others ← makeFileMetas rest
      pure (record :: others)

def flushPendingMetadataUpdates : PushProgram ρ Unit := do
  let s ← Proc.get
  if s.pendingMetadataUpdates = [] then pure ()
  else
    Proc.modify PushState.tookUpdates
    onWorld (setFileMetasBatch env (coalesceFileMetas s.pendingMetadataUpdates))

def failedToUpload (remotePath : Text) (error : ClientError) : Text :=
  text "failed to upload " ++ remotePath ++ text ": " ++ error.display

/-- The engine itself refused the upload. -/
def isEngineForbidden : ClientError → Bool
  | .upstreamRejected 403 _ => true
  | _ => false

/-- The whole message is searched, the path and the text of the engine included. -/
def isForbidden (remotePath : Text) (error : ClientError) : Bool :=
  contains (failedToUpload remotePath error) (text "403 Forbidden") || isEngineForbidden error

def suppressRetry (file : PendingPushFile) : PushProgram ρ Unit := do
  let record ← onWorld (makeFileMeta env file)
  let _ ← Proc.attempt (onWorld (setFileMeta env record))
  pure ()

def recordPushFailure (file : PendingPushFile) (error : ClientError) : PushProgram ρ Unit := do
  onWorld (note (.uploadFailed file.remotePath error))
  if isTransientPushError error then Proc.throw error
  else if isUnrecoverablePushError error then
    Proc.throw (.server (text "push aborted after unrecoverable remote auth/rate-limit error at " ++
      file.remotePath ++ text ": " ++ error.display))
  else
    Proc.modify (PushState.failed (failedToUpload file.remotePath error))
    Proc.when (isForbidden file.remotePath error) (suppressRetry env file)

/-- Every file of a refused batch is tried on its own. -/
def pushSeparately (config : BlobConfig) :
    List PendingPushFile → PushProgram ρ (List (PendingPushFile × FileSyncMeta))
  | [] => pure []
  | file :: rest => do
      match ← Proc.attempt (onWorld (pushBatchViaChunks env config [file])) with
      | .ok () =>
          let record ← onWorld (makeFileMeta env file)
          let others ← pushSeparately config rest
          pure ((file, record) :: others)
      | .error error =>
          recordPushFailure env file error
          pushSeparately config rest

def afterRefusedBatch (config : BlobConfig) (files : List PendingPushFile) : PushProgram ρ Unit := do
  let successes ← pushSeparately env config files
  Proc.modify (PushState.uploaded (successes.map Prod.fst) (successes.map Prod.snd))
  flushPendingMetadataUpdates env

def pushFiles (config : BlobConfig) (files : List PendingPushFile) : PushProgram ρ Unit := do
  match ← Proc.attempt (onWorld (pushBatchViaChunks env config files)) with
  | .ok () =>
      let metas ← onWorld (makeFileMetas env files)
      Proc.modify (PushState.uploaded files metas)
      flushPendingMetadataUpdates env
  | .error error =>
      if isTransientPushError error then Proc.throw error
      else if isUnrecoverablePushError error then
        Proc.throw (.server (text "push aborted after unrecoverable remote auth/rate-limit error: " ++
          error.display))
      else afterRefusedBatch env config files

def flushPushBatch (config : BlobConfig) : PushProgram ρ Unit := do
  let s ← Proc.get
  if s.pendingBatch.files = [] then pure ()
  else
    Proc.modify PushState.tookBatch
    pushFiles env config s.pendingBatch.files

def shouldEmitPushScanProgress (processedEntries : Nat) : Bool :=
  decide (processedEntries > 0) && processedEntries % 100 == 0

/-- Every hundredth entry also flushes the batch. -/
def completeEntry (config : BlobConfig) : PushProgram ρ Unit := do
  Proc.modify PushState.processed
  let s ← Proc.get
  Proc.when (shouldEmitPushScanProgress s.processedEntries) (flushPushBatch env config)

end AeordbSync

import AeordbSync.Push.Scan

namespace AeordbSync
open Characters OsPath FileSystem Effect

def syncChunksBatch : Nat := 2000

/-- The variables of one pull run. -/
structure PullState (ρ : Type) where
  world : World ρ
  filesPulled : Nat
  filesSkipped : Nat
  filesFailed : Nat
  filesDeleted : Nat
  symlinksPulled : Nat
  totalBytes : Nat
  errors : List Text

abbrev PullProgram (ρ α : Type) := Proc (PullState ρ) ClientError α

structure PullContext where
  relationship : SyncRelationship
  others : List SyncRelationship
  config : BlobConfig

variable {ρ α : Type}

namespace PullState

def withWorld (w : World ρ) (s : PullState ρ) : PullState ρ := { s with world := w }

def warned (message : Text) (s : PullState ρ) : PullState ρ := { s with errors := s.errors ++ [message] }

def failed (message : Text) (s : PullState ρ) : PullState ρ :=
  { s with errors := s.errors ++ [message], filesFailed := s.filesFailed + 1 }

def skipped (s : PullState ρ) : PullState ρ := { s with filesSkipped := s.filesSkipped + 1 }

def pulled (size : Nat) (s : PullState ρ) : PullState ρ :=
  { s with filesPulled := s.filesPulled + 1, totalBytes := s.totalBytes + size }

def deleted (s : PullState ρ) : PullState ρ := { s with filesDeleted := s.filesDeleted + 1 }

def pulledSymlink (s : PullState ρ) : PullState ρ := { s with symlinksPulled := s.symlinksPulled + 1 }

end PullState

namespace PullContext

def localPathOf (ctx : PullContext) (remotePath : Text) : PathBuf :=
  computeLocalPath remotePath ctx.relationship.remotePath ctx.relationship.localBase

def isExcluded (ctx : PullContext) (remotePath : Text) : Bool :=
  isExcludedByChild remotePath (childExclusions ctx.relationship ctx.others)

end PullContext

def onDisk (x : Program ρ α) : PullProgram ρ α := Proc.zoom PullState.world PullState.withWorld x

def remoteFileName (remotePath : Text) : Text := ((fileName (ofText (osText remotePath))).bind toStr?).getD []

def PullContext.accepts (globMatch : Text → Text → Bool) (ctx : PullContext) (remotePath : Text) : Bool :=
  matchesFilter globMatch (remoteFileName remotePath) ctx.relationship.filter

variable (env : Env ρ)

def makeDir (entry : Text) (path : PathBuf) : Program ρ (Except IoError Unit) := do
  note (.localChange entry .directory path)
  changeDisk env .createDir path fun _ disk => (disk.createDir path).map fun created => ((), created)

/-- A directory that exists already is no failure. -/
def unlessDir (path : PathBuf) (error : IoError) : Program ρ (Except IoError Unit) := do
  match ← readDisk env .exists path fun disk => .ok (disk.isDir path) with
  | .ok true => pure (.ok ())
  | _ => pure (.error error)

/-- The components come from the last to the first. -/
def createDirs (entry : Text) : List Component → Program ρ (Except IoError Unit)
  | [] => pure (.ok ())
  | last :: above => do
      let path := ofComponents (last :: above).reverse
      match ← makeDir env entry path with
      | .ok () => pure (.ok ())
      | .error error =>
          if error.kind = .notFound then
            match ← createDirs entry above with
            | .error error => pure (.error error)
            | .ok () => match ← makeDir env entry path with
              | .ok () => pure (.ok ())
              | .error error => unlessDir env path error
          else unlessDir env path error

def createDirAll (entry : Text) (path : PathBuf) : Program ρ (Except IoError Unit) :=
  createDirs env entry (components path).reverse

def createParent (entry : Text) (path : PathBuf) : Program ρ (Except IoError Unit) :=
  match parent path with
  | none => pure (.ok ())
  | some above => createDirAll env entry above

/-- The place of a chunk in the local file. -/
structure LocalChunk where
  hash : Text
  offset : Nat
  len : Nat

def localChunksFrom (config : BlobConfig) (offset : Nat) : List Bytes → List LocalChunk
  | [] => []
  | piece :: rest =>
      ⟨chunkHash env.digest config.chunkHashPrefix piece, offset, piece.length⟩ ::
        localChunksFrom config (offset + piece.length) rest

/-- A later chunk with the same hash takes the place of an earlier one. -/
def findLast {β : Type} (key : β → Text) (hash : Text) (xs : List β) : Option β :=
  xs.reverse.find? fun x => key x = hash

/-- A file that does not exist has no chunks. -/
def hashLocalFileChunks (config : BlobConfig) (path : PathBuf) :
    Program ρ (Except IoError (List LocalChunk)) := do
  match ← openFile env path with
  | .error error => pure (if error.kind = .notFound then .ok [] else .error error)
  | .ok () =>
      if config.chunkSize = 0 then pure (.ok [])
      else match ← readDisk env .read path fun disk => disk.read path with
        | .error error => pure (.error error)
        | .ok content => pure (.ok (localChunksFrom env config 0 (chunksOf config.chunkSize content)))

structure FilePlan where
  entry : RemoteSyncFileEntry
  localPath : PathBuf
  localChunks : List LocalChunk

def failedToCreateParent (path : PathBuf) (error : IoError) : Text :=
  text "failed to create parent directory for " ++ env.debugPath path ++ text ": " ++ error.text

/-- A local file that cannot be read is fetched as a whole. -/
def planEntry (ctx : PullContext) (entry : RemoteSyncFileEntry) : PullProgram ρ (Option FilePlan) := do
  if ctx.isExcluded entry.path then
    Proc.modify PullState.skipped
    pure none
  else if ctx.accepts env.globMatch entry.path = false then
    Proc.modify PullState.skipped
    pure none
  else
    let path := ctx.localPathOf entry.path
    match ← onDisk (createParent env entry.path path) with
    | .error error =>
        Proc.modify (PullState.failed (failedToCreateParent env path error))
        pure none
    | .ok () => match ← onDisk (hashLocalFileChunks env ctx.config path) with
      | .error _ => pure (some ⟨entry, path, []⟩)
      | .ok chunks => pure (some ⟨entry, path, chunks⟩)

def planEntries (ctx : PullContext) : List RemoteSyncFileEntry → PullProgram ρ (List FilePlan)
  | [] => pure []
  | entry :: rest => do
      let first ← planEntry env ctx entry
      let others ← planEntries ctx rest
      pure (first.toList ++ others)

/-- The hashes of a plan that no local chunk has. -/
def FilePlan.needed (plan : FilePlan) : List Text :=
  plan.entry.chunkHashes.filter fun hash => (findLast LocalChunk.hash hash plan.localChunks).isNone

/-- The batches are fetched in turn until one fails. -/
def fetchBatches : List (List Text) → Program ρ (List (Text × Bytes) × Option Text)
  | [] => pure ([], none)
  | batch :: rest => do
      match ← Proc.attempt (callRemote (env.engine.syncChunks batch)) with
      | .error error => pure ([], some (text "sync_chunks failed: " ++ error.display))
      | .ok pairs => do
          let others ← fetchBatches rest
          pure (pairs ++ others.1, others.2)

def fetchChunks (plans : List FilePlan) : Program ρ (List (Text × Bytes) × Option Text) := do
  let needed ← arrange env (plans.flatMap FilePlan.needed).dedup
  fetchBatches env (chunksOf syncChunksBatch needed)

end AeordbSync

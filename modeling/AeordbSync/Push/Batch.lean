import AeordbSync.World

namespace AeordbSync
open Characters OsPath FileSystem Effect

def pushBatchMaxFiles : Nat := 32
def pushBatchMaxBytes : Nat := 64 * 1024 * 1024
def pushBatchMaxChunks : Nat := 8192
def pushParallelismLimit : Nat := 4
def blobCommitSafeRequestBodyBytes : Nat := 30 * 1024 * 1024
def blobCheckMaxHashesPerRequest : Nat := 512

inductive PushScanMode where
  | lite
  | full
  deriving DecidableEq

structure PendingPushFile where
  localPath : PathBuf
  remotePath : Text
  contentHash : Text
  fileSize : Nat
  modifiedAt : Int
  contentType : Option Text
  deriving DecidableEq

structure PushBatch where
  files : List PendingPushFile
  bytes : Nat
  chunks : Nat

def estimatedChunkCount (byteLen chunkSize : Nat) : Nat :=
  if byteLen = 0 then 0 else (byteLen + max chunkSize 1 - 1) / max chunkSize 1

namespace PushBatch

def empty : PushBatch := ⟨[], 0, 0⟩

def shouldFlushBefore (batch : PushBatch) (file : PendingPushFile) (config : BlobConfig) : Bool :=
  if batch.files = [] then false
  else decide (batch.files.length + 1 > pushBatchMaxFiles) ||
    decide (batch.bytes + file.fileSize > pushBatchMaxBytes) ||
    decide (batch.chunks + estimatedChunkCount file.fileSize config.chunkSize > pushBatchMaxChunks)

def shouldFlushNow (batch : PushBatch) : Bool :=
  decide (batch.files.length ≥ pushBatchMaxFiles) || decide (batch.bytes ≥ pushBatchMaxBytes) ||
    decide (batch.chunks ≥ pushBatchMaxChunks)

def push (batch : PushBatch) (file : PendingPushFile) (config : BlobConfig) : PushBatch where
  files := batch.files ++ [file]
  bytes := batch.bytes + file.fileSize
  chunks := batch.chunks + estimatedChunkCount file.fileSize config.chunkSize

end PushBatch

def pushWorkerCount (parallelism itemCount : Nat) : Nat :=
  if itemCount = 0 then 0 else max (min (min parallelism pushParallelismLimit) itemCount) 1

def jsonCharLength (c : Char) : Nat :=
  let n := c.toNat
  if c = '"' ∨ c = '\\' then 2
  else if n = 8 ∨ n = 9 ∨ n = 10 ∨ n = 12 ∨ n = 13 then 2
  else if n < 32 then 6
  else c.utf8Size

def jsonStringLength (t : Text) : Nat := 2 + (t.map jsonCharLength).sum

def jsonArrayLength (lengths : List Nat) : Nat := 2 + lengths.sum + (lengths.length - 1)

/-- A field takes its name, two quotes, a colon and its value. -/
def jsonObjectLength (fields : List (String × Nat)) : Nat :=
  jsonArrayLength (fields.map fun field => field.1.length + 3 + field.2)

def estimatedBlobCommitFileBytes (file : PendingPushFile) (config : BlobConfig) : Nat :=
  let chunks := estimatedChunkCount file.fileSize config.chunkSize
  let chunkArrayBytes := if chunks = 0 then 2 else chunks * 67 + 2
  let contentTypeBytes := match file.contentType with
    | some contentType => jsonStringLength contentType
    | none => 0
  160 + jsonStringLength file.remotePath + chunkArrayBytes + ((utf8 file.contentHash).length + 2) +
    (decimal file.fileSize).length + contentTypeBytes

def estimatedBlobCommitBodyBytes (files : List PendingPushFile) (config : BlobConfig) : Nat :=
  12 + (files.map fun file => estimatedBlobCommitFileBytes file config).sum

def commitFileLength (file : CommitFile) : Nat :=
  jsonObjectLength ([("path", jsonStringLength file.path),
      ("chunks", jsonArrayLength (file.chunks.map jsonStringLength))] ++
    (file.contentHash.map fun hash => ("content_hash", jsonStringLength hash)).toList ++
    (file.size.map fun size => ("size", (decimal size).length)).toList ++
    (file.contentType.map fun kind => ("content_type", jsonStringLength kind)).toList)

def blobCommitBodyBytes (files : List CommitFile) : Nat :=
  jsonObjectLength [("files", jsonArrayLength (files.map commitFileLength))]

structure PendingChunkRef where
  hash : Text
  localPath : PathBuf
  offset : Nat
  len : Nat
  deriving DecidableEq

structure PlannedFileChunks where
  chunkHashes : List Text
  chunkRefs : List PendingChunkRef

/-- The references are held in the order in which their hashes were first met. -/
structure PartialPushBatchPlan where
  indexedCommitFiles : List (Nat × CommitFile)
  uniqueHashes : List Text
  uploadChunks : List PendingChunkRef

structure PushBatchPlan where
  commitFiles : List CommitFile
  uniqueHashes : List Text
  uploadChunks : List PendingChunkRef

variable {ρ : Type} (env : Env ρ)

def failedToOpen (path : PathBuf) (error : IoError) : Text :=
  text "failed to open " ++ env.debugPath path ++ text ": " ++ error.text

def failedToRead (path : PathBuf) (error : IoError) : Text :=
  text "failed to read " ++ env.debugPath path ++ text ": " ++ error.text

/-- Opening succeeds on whatever can be read or listed. -/
def openFile (path : PathBuf) : Program ρ (Except IoError Unit) :=
  readDisk env .open path fun disk => match disk.metadata true path with
    | .error error => .error error
    | .ok .special => .error .permissionDenied
    | .ok _ => .ok ()

def readFile (path : PathBuf) : Program ρ (Except Text Bytes) := do
  match ← openFile env path with
  | .error error => pure (.error (failedToOpen env path error))
  | .ok () => match ← readDisk env .read path fun disk => disk.read path with
    | .error error => pure (.error (failedToRead env path error))
    | .ok content => pure (.ok content)

def hashFileContent (path : PathBuf) : Program ρ (Except Text (Text × Nat)) := do
  match ← readFile env path with
  | .error message => pure (.error message)
  | .ok content => pure (.ok (env.digest content, content.length))

def cutPieces (limit : Nat) (content : Bytes) : Program ρ (List Bytes) := fun w =>
  (.ok (env.pieces w.tick limit content), w.advance)

def chunkRefsFrom (config : BlobConfig) (path : PathBuf) (offset : Nat) :
    List Bytes → List PendingChunkRef
  | [] => []
  | piece :: rest =>
      ⟨chunkHash env.digest config.chunkHashPrefix piece, path, offset, piece.length⟩ ::
        chunkRefsFrom config path (offset + piece.length) rest

def fileChangedWhilePreparing (file : PendingPushFile) (size : Nat) (hash : Text) : Text :=
  text "file changed while preparing upload for " ++ env.debugPath file.localPath ++
    text ": expected size/hash " ++ decimal file.fileSize ++ text ":" ++ file.contentHash ++
    text ", got " ++ decimal size ++ text ":" ++ hash

def planFileChunks (file : PendingPushFile) (config : BlobConfig) :
    Program ρ (Except Text PlannedFileChunks) := do
  match ← readFile env file.localPath with
  | .error message => pure (.error message)
  | .ok content => do
      let pieces ← cutPieces env (max config.chunkSize 1) content
      let size := pieces.flatten.length
      let plannedHash := env.digest pieces.flatten
      if size ≠ file.fileSize ∨ plannedHash ≠ file.contentHash then
        pure (.error (fileChangedWhilePreparing env file size plannedHash))
      else
        pure (.ok ⟨pieces.map (chunkHash env.digest config.chunkHashPrefix),
          chunkRefsFrom env config file.localPath 0 pieces⟩)

end AeordbSync

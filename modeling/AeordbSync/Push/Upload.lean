import Mathlib.Data.List.Sort
import AeordbSync.Push.Batch

namespace AeordbSync
open Characters OsPath FileSystem Effect

variable {ρ : Type} (env : Env ρ)

def commitFileOf (file : PendingPushFile) (chunkHashes : List Text) : CommitFile :=
  ⟨file.remotePath, chunkHashes, some file.contentHash, some file.fileSize, file.contentType⟩

/-- A hash is planned for upload when it is first met. -/
def addChunkRef (plan : PartialPushBatchPlan) (ref : PendingChunkRef) : PartialPushBatchPlan :=
  if plan.uploadChunks.any fun other => other.hash = ref.hash then plan
  else { plan with
    uniqueHashes := plan.uniqueHashes ++ [ref.hash]
    uploadChunks := plan.uploadChunks ++ [ref] }

def addPlannedFile (plan : PartialPushBatchPlan) (index : Nat) (file : PendingPushFile)
    (planned : PlannedFileChunks) : PartialPushBatchPlan :=
  let extended := planned.chunkRefs.foldl addChunkRef plan
  { extended with
    indexedCommitFiles := extended.indexedCommitFiles ++ [(index, commitFileOf file planned.chunkHashes)] }

def planPushBatchRange (config : BlobConfig) (plan : PartialPushBatchPlan) (index : Nat) :
    List PendingPushFile → Program ρ (Except Text PartialPushBatchPlan)
  | [] => pure (.ok plan)
  | file :: rest => do
      match ← planFileChunks env file config with
      | .error message => pure (.error message)
      | .ok planned =>
          planPushBatchRange config (addPlannedFile plan index file planned) (index + 1) rest

/-- The list is cut after every group of the given size. -/
def chunksFrom {α : Type} (size : Nat) (current : List α) : List α → List (List α)
  | [] => if current.isEmpty then [] else [current]
  | x :: rest =>
      if current.length + 1 = size then (current ++ [x]) :: chunksFrom size [] rest
      else chunksFrom size (current ++ [x]) rest

def chunksOf {α : Type} (size : Nat) (xs : List α) : List (List α) := chunksFrom size [] xs

/-- The parts of a batch that separate workers plan. -/
def workerRanges {α : Type} (filesPerWorker : Nat) (files : List α) : List (Nat × List α) :=
  (chunksOf filesPerWorker files).zipIdx.map fun part => (part.2 * filesPerWorker, part.1)

/-- Every worker runs to its end, whatever the others return. -/
def planRanges (config : BlobConfig) : List (Nat × List PendingPushFile) →
    Program ρ (Except Text (List PartialPushBatchPlan))
  | [] => pure (.ok [])
  | (index, files) :: rest => do
      let first ← planPushBatchRange env config ⟨[], [], []⟩ index files
      let others ← planRanges config rest
      match first, others with
      | .error message, _ => pure (.error message)
      | .ok _, .error message => pure (.error message)
      | .ok plan, .ok plans => pure (.ok (plan :: plans))

def mergeChunk (partialPlan : PartialPushBatchPlan) (merged : PushBatchPlan) (hash : Text) :
    PushBatchPlan :=
  if merged.uploadChunks.any fun ref => ref.hash = hash then merged
  else match partialPlan.uploadChunks.find? fun ref => ref.hash = hash with
    | none => merged
    | some ref => { merged with
        uniqueHashes := merged.uniqueHashes ++ [hash]
        uploadChunks := merged.uploadChunks ++ [ref] }

def mergePartialPushBatchPlans (plans : List PartialPushBatchPlan) : PushBatchPlan :=
  let merged := plans.foldl
    (fun merged plan => plan.uniqueHashes.foldl (mergeChunk plan) merged) ⟨[], [], []⟩
  let indexed := plans.flatMap PartialPushBatchPlan.indexedCommitFiles
  { merged with
    commitFiles := (indexed.insertionSort fun a b => a.1 ≤ b.1).map Prod.snd }

def planPushBatch (files : List PendingPushFile) (config : BlobConfig) :
    Program ρ (Except Text PushBatchPlan) := do
  let workerCount := pushWorkerCount env.parallelism files.length
  if workerCount ≤ 1 then
    match ← planPushBatchRange env config ⟨[], [], []⟩ 0 files with
    | .error message => pure (.error message)
    | .ok plan => pure (.ok (mergePartialPushBatchPlans [plan]))
  else
    let filesPerWorker := (files.length + workerCount - 1) / workerCount
    match ← planRanges env config (workerRanges filesPerWorker files) with
    | .error message => pure (.error message)
    | .ok plans => pure (.ok (mergePartialPushBatchPlans plans))

def blobCheckGroups : List (List Text) → Program ρ BlobCheckResponse
  | [] => pure ⟨[], []⟩
  | group :: rest => do
      let response ← callRemote (env.engine.blobCheckOnce group)
      let others ← blobCheckGroups rest
      pure ⟨response.available ++ others.available, response.needed ++ others.needed⟩

def blobCheck (hashes : List Text) : Program ρ BlobCheckResponse :=
  blobCheckGroups env (chunksOf blobCheckMaxHashesPerRequest hashes)

def otherIoError (message : Text) : ClientError := .io ⟨.other, message⟩

def chunkChangedWhileReading (chunk : PendingChunkRef) (actual : Text) : Text :=
  text "file changed while reading chunk " ++ env.debugPath chunk.localPath ++
    text " at offset " ++ decimal chunk.offset ++ text ": expected " ++ chunk.hash ++
    text ", got " ++ actual

/-- A short file ends the exact read with an error. -/
def readExact (content : Bytes) (offset len : Nat) : Except IoError Bytes :=
  if content.length < offset + len ∧ 0 < len then
    .error ⟨.other, text "failed to fill whole buffer"⟩
  else .ok ((content.drop offset).take len)

def readPendingChunk (chunk : PendingChunkRef) (hashPrefix : Text) : Program ρ Bytes := do
  orFail (openFile env chunk.localPath)
  orFail (readDisk env .seek chunk.localPath fun _ => .ok ())
  let bytes ← orFail (readDisk env .read chunk.localPath fun disk => do
    readExact (← disk.read chunk.localPath) chunk.offset chunk.len)
  let actualHash := chunkHash env.digest hashPrefix bytes
  if actualHash ≠ chunk.hash then
    Proc.throw (otherIoError (chunkChangedWhileReading env chunk actualHash))
  else pure bytes

def uploadPendingChunk (hashPrefix : Text) (chunk : PendingChunkRef) : Program ρ Unit := do
  let bytes ← readPendingChunk env chunk hashPrefix
  callRemote (env.engine.uploadChunk chunk.hash bytes)

def pushFileDirectly (file : PendingPushFile) : Program ρ Unit := do
  orFail (openFile env file.localPath)
  note (.uploaded file.remotePath)
  let body ← readDisk env .read file.localPath fun disk => disk.read file.localPath
  match body with
  | .error error => Proc.throw (.upstreamProtocol
      (text "malformed request to engine for " ++ file.remotePath ++ text ": " ++ error.text))
  | .ok bytes => callRemote (env.engine.uploadFile file.remotePath bytes file.contentType)

def pushBatchViaDirectFilePut (files : List PendingPushFile) : Program ρ Unit :=
  Proc.forEach files (pushFileDirectly env)

def checkChunks (plan : PushBatchPlan) : Program ρ (List Text) := do
  if plan.uniqueHashes = [] then pure []
  else
    let response ← blobCheck env plan.uniqueHashes
    pure response.needed

def uploadChunks (config : BlobConfig) (plan : PushBatchPlan) (needed : List Text) :
    Program ρ Unit := do
  let chunks ← arrange env (plan.uploadChunks.filter fun chunk => chunk.hash ∈ needed)
  Proc.forEach chunks (uploadPendingChunk env config.chunkHashPrefix)

def commitPlan (plan : PushBatchPlan) : Program ρ Unit := do
  note (.committed (plan.commitFiles.map CommitFile.path))
  callRemote (env.engine.blobCommit plan.commitFiles)

def pushPlannedBatch (config : BlobConfig) (plan : PushBatchPlan) : Program ρ Unit := do
  let needed ← checkChunks env plan
  uploadChunks env config plan needed
  commitPlan env plan

/-- A manifest above the safe size is avoided by streaming every file. -/
def pushBatchViaChunks (config : BlobConfig) (files : List PendingPushFile) : Program ρ Unit := do
  if files = [] then pure ()
  else if estimatedBlobCommitBodyBytes files config > blobCommitSafeRequestBodyBytes then
    pushBatchViaDirectFilePut env files
  else
    match ← planPushBatch env files config with
    | .error message => Proc.throw (otherIoError message)
    | .ok plan =>
        if blobCommitBodyBytes plan.commitFiles > blobCommitSafeRequestBodyBytes then
          pushBatchViaDirectFilePut env files
        else pushPlannedBatch env config plan

end AeordbSync

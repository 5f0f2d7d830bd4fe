import AeordbSync.Push.UploadRules

namespace AeordbSync
open Characters OsPath FileSystem Effect

def pushChunkUploadConcurrency : Nat := 5

/-- One worker plans its files in order. The first of the files that remain may be open, with the
pieces that its reads have given so far. -/
structure Planner where
  index : Nat
  files : List PendingPushFile
  pieces : Option (List Bytes)
  plan : PartialPushBatchPlan
  failure : Option Text

inductive FlightStage where
  | reading
  | sending (bytes : Bytes)
  | ended (result : Except ClientError Bytes)

/-- A chunk upload in progress, or one that has ended and not been taken notice of. -/
structure Flight where
  chunk : PendingChunkRef
  stage : FlightStage

inductive TransferPhase where
  | planning (planners : List Planner)
  | checking (plan : PushBatchPlan) (groups : List (List Text))
  | uploading (plan : PushBatchPlan) (waiting : List PendingChunkRef) (flights : List Flight)
  | streaming (files : List PendingPushFile)
  | returned (result : Except ClientError Unit)

/-- The fields after the answers only observe: the groups asked, the uploads that have succeeded, and
the manifests of the commits that have been sent. -/
structure Transfer where
  phase : TransferPhase
  response : BlobCheckResponse
  asked : List (List Text)
  uploaded : List (Text × Bytes)
  commits : List (List CommitFile)

/-- Whoever changes the local files meanwhile decides what the reads return. -/
inductive TransferAction where
  | opened (planner : Nat) (result : Except IoError Unit)
  | read (planner : Nat) (result : Except IoError Bytes)
  | joined
  | answered (result : Except ClientError BlobCheckResponse)
  | arranged (chunks : List PendingChunkRef)
  | started
  | chunkRead (flight : Nat) (result : Except IoError Bytes)
  | sent (flight : Nat) (result : Except ClientError Unit)
  | yielded (flight : Nat)
  | committed (result : Except ClientError Unit)
  | streamed (result : Except ClientError Unit)

variable {ρ : Type} (env : Env ρ) (config : BlobConfig)

namespace Planner

def start (part : Nat × List PendingPushFile) : Planner := ⟨part.1, part.2, none, ⟨[], [], []⟩, none⟩

def result (planner : Planner) : Option (Except Text PartialPushBatchPlan) :=
  match planner.failure, planner.files with
  | some message, _ => some (.error message)
  | none, [] => some (.ok planner.plan)
  | none, _ :: _ => none

def opened (planner : Planner) (outcome : Except IoError Unit) : Option Planner :=
  match planner.failure, planner.files, planner.pieces with
  | none, file :: _, none => match outcome with
      | .error error => some { planner with failure := some (failedToOpen env file.localPath error) }
      | .ok () => some { planner with pieces := some [] }
  | _, _, _ => none

/-- The end of the file has been read. -/
def endFile (planner : Planner) (file : PendingPushFile) (rest : List PendingPushFile) (pieces : List Bytes) :
    Planner :=
  let size := pieces.flatten.length
  let plannedHash := env.digest pieces.flatten
  if size ≠ file.fileSize ∨ plannedHash ≠ file.contentHash then
    { planner with failure := some (fileChangedWhilePreparing env file size plannedHash) }
  else
    { planner with
      index := planner.index + 1
      files := rest
      pieces := none
      plan := addPlannedFile planner.plan planner.index file
        ⟨pieces.map (chunkHash env.digest config.chunkHashPrefix), chunkRefsFrom env config file.localPath 0 pieces⟩ }

def read (planner : Planner) (outcome : Except IoError Bytes) : Option Planner :=
  match planner.failure, planner.files, planner.pieces with
  | none, file :: rest, some pieces => match outcome with
      | .error error => some { planner with failure := some (failedToRead env file.localPath error) }
      | .ok bytes =>
          if bytes = [] then some (planner.endFile env config file rest pieces)
          else if bytes.length ≤ max config.chunkSize 1 then some { planner with pieces := some (pieces ++ [bytes]) }
          else none
  | _, _, _ => none

end Planner

/-- The workers return all their plans, or the first error in their order. -/
def joinPlans : List (Except Text PartialPushBatchPlan) → Except Text (List PartialPushBatchPlan)
  | [] => .ok []
  | .error message :: _ => .error message
  | .ok plan :: rest => match joinPlans rest with
      | .error message => .error message
      | .ok plans => .ok (plan :: plans)

namespace Flight

/-- The chunk is only sent if the bytes read now still have its hash. -/
def chunkRead (flight : Flight) (outcome : Except IoError Bytes) : Option Flight :=
  match flight.stage, outcome with
  | .reading, .error error => some { flight with stage := .ended (.error (.io error)) }
  | .reading, .ok bytes =>
      if bytes.length ≠ flight.chunk.len then none
      else
        let actualHash := chunkHash env.digest config.chunkHashPrefix bytes
        if actualHash ≠ flight.chunk.hash then
          let error := otherIoError (chunkChangedWhileReading env flight.chunk actualHash)
          some { flight with stage := .ended (.error error) }
        else some { flight with stage := .sending bytes }
  | _, _ => none

def sent (flight : Flight) (outcome : Except ClientError Unit) : Option Flight :=
  match flight.stage, outcome with
  | .sending bytes, .ok () => some { flight with stage := .ended (.ok bytes) }
  | .sending _, .error error => some { flight with stage := .ended (.error error) }
  | _, _ => none

end Flight

namespace Transfer

def parts (files : List PendingPushFile) : List (Nat × List PendingPushFile) :=
  let workerCount := pushWorkerCount env.parallelism files.length
  if workerCount ≤ 1 then [(0, files)]
  else workerRanges ((files.length + workerCount - 1) / workerCount) files

def startPhase (files : List PendingPushFile) : TransferPhase :=
  if files = [] then .returned (.ok ())
  else if estimatedBlobCommitBodyBytes files config > blobCommitSafeRequestBodyBytes then .streaming files
  else .planning ((parts env files).map Planner.start)

def start (files : List PendingPushFile) : Transfer := ⟨startPhase env config files, ⟨[], []⟩, [], [], []⟩

def planned (files : List PendingPushFile) : Except Text (List PartialPushBatchPlan) → TransferPhase
  | .error message => .returned (.error (otherIoError message))
  | .ok plans =>
      let plan := mergePartialPushBatchPlans plans
      if blobCommitBodyBytes plan.commitFiles > blobCommitSafeRequestBodyBytes then .streaming files
      else .checking plan (chunksOf blobCheckMaxHashesPerRequest plan.uniqueHashes)

/-- The consumer takes the result of an upload that has ended. -/
def yielded (t : Transfer) (plan : PushBatchPlan) (waiting : List PendingChunkRef) (flights : List Flight)
    (index : Nat) : Option Transfer :=
  match flights[index]? with
  | some ⟨_, .ended (.error error)⟩ => some { t with phase := .returned (.error error) }
  | some ⟨chunk, .ended (.ok bytes)⟩ => some { t with
      phase := .uploading plan waiting (flights.eraseIdx index)
      uploaded := t.uploaded ++ [(chunk.hash, bytes)] }
  | _ => none

def step (files : List PendingPushFile) (t : Transfer) : TransferAction → Option Transfer
  | .opened index outcome => match t.phase with
      | .planning planners => do
          let planner ← (← planners[index]?).opened env outcome
          pure { t with phase := .planning (planners.set index planner) }
      | _ => none
  | .read index outcome => match t.phase with
      | .planning planners => do
          let planner ← (← planners[index]?).read env config outcome
          pure { t with phase := .planning (planners.set index planner) }
      | _ => none
  | .joined => match t.phase with
      | .planning planners => do
          let results ← planners.mapM Planner.result
          pure { t with phase := planned files (joinPlans results) }
      | _ => none
  | .answered outcome => match t.phase with
      | .checking plan (group :: rest) => match outcome with
          | .error error => some { t with phase := .returned (.error error), asked := t.asked ++ [group] }
          | .ok response => some { t with
              phase := .checking plan rest
              response := ⟨t.response.available ++ response.available, t.response.needed ++ response.needed⟩
              asked := t.asked ++ [group] }
      | _ => none
  | .arranged chunks => match t.phase with
      | .checking plan [] =>
          if chunks.Perm (plan.uploadChunks.filter fun chunk => chunk.hash ∈ t.response.needed) then
            some { t with phase := .uploading plan chunks [] }
          else none
      | _ => none
  | .started => match t.phase with
      | .uploading plan (chunk :: waiting) flights =>
          if flights.length < pushChunkUploadConcurrency then
            some { t with phase := .uploading plan waiting (flights ++ [⟨chunk, .reading⟩]) }
          else none
      | _ => none
  | .chunkRead index outcome => match t.phase with
      | .uploading plan waiting flights => do
          let flight ← (← flights[index]?).chunkRead env config outcome
          pure { t with phase := .uploading plan waiting (flights.set index flight) }
      | _ => none
  | .sent index outcome => match t.phase with
      | .uploading plan waiting flights => do
          let flight ← (← flights[index]?).sent outcome
          pure { t with phase := .uploading plan waiting (flights.set index flight) }
      | _ => none
  | .yielded index => match t.phase with
      | .uploading plan waiting flights => t.yielded plan waiting flights index
      | _ => none
  | .committed outcome => match t.phase with
      | .uploading plan [] [] => some { t with
          phase := .returned outcome
          commits := t.commits ++ [plan.commitFiles] }
      | _ => none
  | .streamed outcome => match t.phase, outcome with
      | .streaming [], _ => some { t with phase := .returned (.ok ()) }
      | .streaming (_ :: _), .error error => some { t with phase := .returned (.error error) }
      | .streaming (_ :: rest), .ok () => some { t with phase := .streaming rest }
      | _, _ => none

/-- The engine answers each check with a partition of the hashes that it was asked for. -/
def Answers (t : Transfer) (action : TransferAction) : Prop :=
  ∀ plan group rest response, t.phase = .checking plan (group :: rest) → action = .answered (.ok response) →
    (response.available ++ response.needed).Perm group

inductive Reached (files : List PendingPushFile) : Transfer → Prop
  | start : Reached files (start env config files)
  | step {t next : Transfer} {action : TransferAction} (before : Reached files t) (answers : t.Answers action)
      (taken : t.step env config files action = some next) : Reached files next

end Transfer

end AeordbSync

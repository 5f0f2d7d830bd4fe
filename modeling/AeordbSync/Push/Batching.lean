import AeordbSync.Push.Batch
import Mathlib.Tactic.Ring

namespace AeordbSync
open Characters OsPath

/-- The largest 64-bit number, at which saturating additions stop. -/
def maxU64 : Nat := 2 ^ 64 - 1

def saturatingAdd (a b : Nat) : Nat := min (a + b) maxU64

namespace Saturating

/-- Sizes and counts are 64-bit numbers. -/
def estimatedChunkCount (byteLen chunkSize : Nat) : Nat :=
  if byteLen = 0 then 0 else min ((byteLen + max chunkSize 1 - 1) / max chunkSize 1) maxU64

def shouldFlushBefore (batch : PushBatch) (file : PendingPushFile) (config : BlobConfig) : Bool :=
  if batch.files = [] then false
  else
    let fileChunks := estimatedChunkCount file.fileSize config.chunkSize
    decide (batch.files.length + 1 > pushBatchMaxFiles) ||
      decide (saturatingAdd batch.bytes file.fileSize > pushBatchMaxBytes) ||
      decide (saturatingAdd batch.chunks fileChunks > pushBatchMaxChunks)

def push (batch : PushBatch) (file : PendingPushFile) (config : BlobConfig) : PushBatch where
  files := batch.files ++ [file]
  bytes := saturatingAdd batch.bytes file.fileSize
  chunks := saturatingAdd batch.chunks (estimatedChunkCount file.fileSize config.chunkSize)

end Saturating

/-- What the batch goes through: a candidate is put into it, or the progress of the scan is reported. -/
inductive BatchStep where
  | candidate (file : PendingPushFile)
  | progress

def BatchStep.candidate? : BatchStep → Option PendingPushFile
  | .candidate file => some file
  | .progress => none

/-- The pending batch, and the batches that were flushed. -/
structure BatchRun where
  batch : PushBatch
  flushed : List PushBatch

namespace BatchRun

def start : BatchRun := ⟨.empty, []⟩

/-- An empty batch is left alone. -/
def flush (run : BatchRun) : BatchRun :=
  if run.batch.files = [] then run else ⟨.empty, run.flushed ++ [run.batch]⟩

def candidate (config : BlobConfig) (run : BatchRun) (file : PendingPushFile) : BatchRun :=
  let ready := if Saturating.shouldFlushBefore run.batch file config = true then run.flush else run
  let filled := { ready with batch := Saturating.push ready.batch file config }
  if filled.batch.shouldFlushNow = true then filled.flush else filled

def step (config : BlobConfig) (run : BatchRun) : BatchStep → BatchRun
  | .candidate file => run.candidate config file
  | .progress => run.flush

/-- The last batch is flushed after the candidates. -/
def batches (config : BlobConfig) (steps : List BatchStep) : List PushBatch :=
  (steps.foldl (step config) start).flush.flushed

end BatchRun

/-- The totals of a batch are those of its files. -/
structure PushBatch.Exact (config : BlobConfig) (batch : PushBatch) : Prop where
  bytes : batch.bytes = (batch.files.map PendingPushFile.fileSize).sum
  chunks : batch.chunks = (batch.files.map fun file => estimatedChunkCount file.fileSize config.chunkSize).sum

/-- A batch that is flushed keeps the limits, but for one file that exceeds them alone. -/
structure PushBatch.Limited (batch : PushBatch) : Prop where
  files : batch.files.length ≤ pushBatchMaxFiles
  several : 1 < batch.files.length → batch.bytes ≤ pushBatchMaxBytes ∧ batch.chunks ≤ pushBatchMaxChunks

/-- What holds of the pending batch: it is exact and below each of the limits. -/
structure PushBatch.Pending (config : BlobConfig) (batch : PushBatch) : Prop extends batch.Exact config where
  files : batch.files.length < pushBatchMaxFiles
  bytesLess : batch.bytes < pushBatchMaxBytes
  chunksLess : batch.chunks < pushBatchMaxChunks

variable {config : BlobConfig} {batch : PushBatch} {file : PendingPushFile}

theorem estimatedChunkCount_le (byteLen chunkSize : Nat) : estimatedChunkCount byteLen chunkSize ≤ byteLen := by
  unfold estimatedChunkCount
  split
  · omega
  next some =>
    obtain ⟨bytes, rfl⟩ := Nat.exists_eq_succ_of_ne_zero some
    obtain ⟨size, equal⟩ := Nat.exists_eq_succ_of_ne_zero (show max chunkSize 1 ≠ 0 by omega)
    rw [equal]
    apply Nat.div_le_of_le_mul
    have expand : (size + 1) * (bytes + 1) = size * bytes + size + bytes + 1 := by ring
    show bytes + 1 + (size + 1) - 1 ≤ (size + 1) * (bytes + 1)
    rw [expand]
    omega

theorem saturating_estimatedChunkCount {byteLen : Nat} (small : byteLen < 2 ^ 64) (chunkSize : Nat) :
    Saturating.estimatedChunkCount byteLen chunkSize = estimatedChunkCount byteLen chunkSize := by
  have below := estimatedChunkCount_le byteLen chunkSize
  unfold Saturating.estimatedChunkCount
  unfold estimatedChunkCount at below ⊢
  split
  · rfl
  next some =>
    rw [if_neg some] at below
    apply Nat.min_eq_left
    unfold maxU64
    omega

/-- A comparison with a smaller limit does not see the saturation. -/
theorem lt_saturatingAdd {limit a b : Nat} (small : limit < maxU64) :
    limit < saturatingAdd a b ↔ limit < a + b := by
  unfold saturatingAdd
  omega

/-- Saturation changes no decision. -/
theorem saturating_shouldFlushBefore (small : file.fileSize < 2 ^ 64) :
    Saturating.shouldFlushBefore batch file config = batch.shouldFlushBefore file config := by
  unfold Saturating.shouldFlushBefore PushBatch.shouldFlushBefore
  have bytes : pushBatchMaxBytes < maxU64 := by decide
  have chunks : pushBatchMaxChunks < maxU64 := by decide
  simp only [saturating_estimatedChunkCount small, gt_iff_lt, lt_saturatingAdd bytes, lt_saturatingAdd chunks]

/-- A batch is pushed to without saturation when it need not be flushed before. -/
theorem saturating_push (pending : batch.Pending config) (small : file.fileSize < 2 ^ 64)
    (fits : batch.shouldFlushBefore file config = false) :
    Saturating.push batch file config = batch.push file config := by
  have count := estimatedChunkCount_le file.fileSize config.chunkSize
  have sums : batch.bytes + file.fileSize ≤ maxU64 ∧
      batch.chunks + estimatedChunkCount file.fileSize config.chunkSize ≤ maxU64 := by
    unfold PushBatch.shouldFlushBefore at fits
    split at fits
    next empty =>
      have bytes := pending.bytes
      have chunks := pending.chunks
      rw [empty] at bytes chunks
      simp only [List.map_nil, List.sum_nil] at bytes chunks
      rw [bytes, chunks]
      unfold maxU64
      omega
    next some =>
      simp only [Bool.or_eq_false_iff, decide_eq_false_iff_not, not_lt] at fits
      have bytes : pushBatchMaxBytes ≤ maxU64 := by decide
      have chunks : pushBatchMaxChunks ≤ maxU64 := by decide
      exact ⟨fits.1.2.trans bytes, fits.2.trans chunks⟩
  unfold Saturating.push PushBatch.push saturatingAdd
  rw [saturating_estimatedChunkCount small, Nat.min_eq_left sums.1, Nat.min_eq_left sums.2]

theorem push_exact (exact : batch.Exact config) : (batch.push file config).Exact config where
  bytes := by
    show batch.bytes + file.fileSize = _
    rw [exact.bytes, PushBatch.push, List.map_append, List.sum_append]
    rfl
  chunks := by
    show batch.chunks + estimatedChunkCount file.fileSize config.chunkSize = _
    rw [exact.chunks, PushBatch.push, List.map_append, List.sum_append]
    rfl

theorem push_limited (fits : batch.shouldFlushBefore file config = false) : (batch.push file config).Limited := by
  have length : (batch.push file config).files.length = batch.files.length + 1 := List.length_append
  unfold PushBatch.shouldFlushBefore at fits
  split at fits
  next empty =>
    rw [empty, List.length_nil] at length
    constructor
    · rw [length]
      decide
    · rw [length]
      intro several
      omega
  next some =>
    simp only [Bool.or_eq_false_iff, decide_eq_false_iff_not, not_lt] at fits
    exact ⟨length.trans_le fits.1.1, fun _ => ⟨fits.1.2, fits.2⟩⟩

theorem empty_pending : PushBatch.empty.Pending config where
  bytes := rfl
  chunks := rfl
  files := by decide
  bytesLess := by decide
  chunksLess := by decide

/-- A batch that need not be flushed now is below each of the limits. -/
theorem pending_of_exact (exact : batch.Exact config) (stays : batch.shouldFlushNow = false) :
    batch.Pending config := by
  simp only [PushBatch.shouldFlushNow, Bool.or_eq_false_iff, decide_eq_false_iff_not, not_le] at stays
  exact ⟨exact, stays.1.1, stays.1.2, stays.2⟩

namespace BatchRun

/-- The pending batch is below the limits, every flushed batch keeps them, and no candidate is lost. -/
structure Sound (config : BlobConfig) (run : BatchRun) (candidates : List PendingPushFile) : Prop where
  pending : run.batch.Pending config
  flushed : ∀ batch ∈ run.flushed, batch.files ≠ [] ∧ batch.Exact config ∧ batch.Limited
  candidates : run.flushed.flatMap PushBatch.files ++ run.batch.files = candidates

variable {run : BatchRun} {candidates : List PendingPushFile}

/-- A flush keeps what is known, when the batch keeps the limits. -/
theorem sound_flush (exact : run.batch.Exact config) (limited : run.batch.Limited)
    (flushed : ∀ batch ∈ run.flushed, batch.files ≠ [] ∧ batch.Exact config ∧ batch.Limited)
    (all : run.flushed.flatMap PushBatch.files ++ run.batch.files = candidates) : run.flush.Sound config candidates := by
  unfold flush
  split
  next empty =>
    refine ⟨⟨exact, ?_, ?_, ?_⟩, flushed, all⟩
    · rw [empty]
      decide
    · rw [exact.bytes, empty]
      show 0 < pushBatchMaxBytes
      decide
    · rw [exact.chunks, empty]
      show 0 < pushBatchMaxChunks
      decide
  next some =>
    refine ⟨empty_pending, fun batch inside => ?_, ?_⟩
    · rcases List.mem_append.mp inside with before | last
      · exact flushed batch before
      · rw [List.mem_singleton.mp last]
        exact ⟨some, exact, limited⟩
    · rw [List.flatMap_append, List.flatMap_singleton, all]
      exact List.append_nil _

theorem limited_of_pending (pending : batch.Pending config) : batch.Limited :=
  ⟨Nat.le_of_lt pending.files, fun _ => ⟨Nat.le_of_lt pending.bytesLess, Nat.le_of_lt pending.chunksLess⟩⟩

theorem Sound.flush (sound : run.Sound config candidates) : run.flush.Sound config candidates :=
  sound_flush sound.pending.toExact (limited_of_pending sound.pending) sound.flushed sound.candidates

/-- After the flush before it a candidate fits. -/
theorem fits_after_flush (run : BatchRun) (file : PendingPushFile) :
    (if run.batch.shouldFlushBefore file config = true then run.flush else run).batch.shouldFlushBefore file config =
      false := by
  split
  next due =>
    unfold BatchRun.flush
    split
    next empty =>
      unfold PushBatch.shouldFlushBefore
      rw [if_pos empty]
    next => rfl
  next stays => exact Bool.eq_false_iff.mpr stays

theorem Sound.candidate (sound : run.Sound config candidates) (small : file.fileSize < 2 ^ 64) :
    (run.candidate config file).Sound config (candidates ++ [file]) := by
  unfold BatchRun.candidate
  rw [saturating_shouldFlushBefore small]
  have fits := @fits_after_flush config run file
  have ready : (if run.batch.shouldFlushBefore file config = true then run.flush else run).Sound config candidates := by
    split
    · exact sound.flush
    · exact sound
  generalize (if run.batch.shouldFlushBefore file config = true then run.flush else run) = r at fits ready ⊢
  simp only [saturating_push ready.pending small fits]
  have exact := @push_exact _ _ file ready.pending.toExact
  have all : r.flushed.flatMap PushBatch.files ++ (r.batch.push file config).files = candidates ++ [file] := by
    rw [← ready.candidates, PushBatch.push, List.append_assoc]
  split
  next => exact sound_flush exact (push_limited fits) ready.flushed all
  next stays => exact ⟨pending_of_exact exact (Bool.eq_false_iff.mpr stays), ready.flushed, all⟩

theorem Sound.step {step : BatchStep} (sound : run.Sound config candidates)
    (small : ∀ file, step = .candidate file → file.fileSize < 2 ^ 64) :
    (run.step config step).Sound config (candidates ++ step.candidate?.toList) := by
  cases step with
  | candidate file => exact sound.candidate (small file rfl)
  | progress =>
      rw [show BatchStep.progress.candidate?.toList = [] from rfl, List.append_nil]
      exact sound.flush

theorem Sound.steps {steps : List BatchStep} (sound : run.Sound config candidates)
    (small : ∀ file, .candidate file ∈ steps → file.fileSize < 2 ^ 64) :
    (steps.foldl (BatchRun.step config) run).Sound config (candidates ++ steps.filterMap BatchStep.candidate?) := by
  induction steps generalizing run candidates with
  | nil =>
      rw [List.filterMap_nil, List.append_nil]
      exact sound
  | cons step rest ih =>
      have first := @Sound.step _ _ _ step sound fun file equal => small file (equal ▸ .head _)
      have whole : candidates ++ (step :: rest).filterMap BatchStep.candidate? =
          (candidates ++ step.candidate?.toList) ++ rest.filterMap BatchStep.candidate? := by
        rw [List.append_assoc]
        cases step <;> rfl
      rw [whole]
      exact ih first fun file later => small file (.tail _ later)

/-- Every flushed batch has the totals of its files and keeps the limits, and the batches together are the
candidates in their order. -/
theorem batches_limited {steps : List BatchStep}
    (small : ∀ file, .candidate file ∈ steps → file.fileSize < 2 ^ 64) :
    (∀ batch ∈ batches config steps, batch.files ≠ [] ∧ batch.Exact config ∧ batch.Limited) ∧
      (batches config steps).flatMap PushBatch.files = steps.filterMap BatchStep.candidate? := by
  have start : BatchRun.start.Sound config [] := ⟨empty_pending, (fun _ inside => by cases inside), rfl⟩
  have last := (start.steps small).flush
  refine ⟨last.flushed, ?_⟩
  have emptied : (steps.foldl (BatchRun.step config) BatchRun.start).flush.batch.files = [] := by
    unfold BatchRun.flush
    split
    next empty => exact empty
    next => rfl
  have all := last.candidates
  rwa [emptied, List.append_nil, List.nil_append] at all

def sizedFile (name : String) (size : Nat) : PendingPushFile where
  localPath := ofText (osText (text "/home/" ++ text name))
  remotePath := text "/docs/" ++ text name
  contentHash := text name
  fileSize := size
  modifiedAt := 0
  contentType := none

/-- Two small files, a report, a file of the largest size and one more. -/
def mixedSteps : List BatchStep :=
  [.candidate (sizedFile "a" 10), .candidate (sizedFile "b" 20), .progress, .candidate (sizedFile "c" maxU64),
    .candidate (sizedFile "d" 30)]

def wideConfig : BlobConfig := ⟨text "blake3", 2 ^ 18, text "chunk:"⟩

theorem batches_limited_mixed :
    (batches wideConfig mixedSteps).map (fun batch => batch.files.map PendingPushFile.fileSize) =
        [[10, 20], [maxU64], [30]] ∧
      (∀ batch ∈ batches wideConfig mixedSteps,
        batch.files ≠ [] ∧ batch.Exact wideConfig ∧ batch.Limited) ∧
      (batches wideConfig mixedSteps).flatMap PushBatch.files = mixedSteps.filterMap BatchStep.candidate? := by
  have small : ∀ file, .candidate file ∈ mixedSteps → file.fileSize < 2 ^ 64 := by
    simp [mixedSteps, sizedFile, maxU64]
  exact ⟨by decide, batches_limited small⟩

end BatchRun

end AeordbSync

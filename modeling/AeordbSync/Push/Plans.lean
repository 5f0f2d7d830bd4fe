import AeordbSync.Library.Firsts
import AeordbSync.Push.UploadRules

namespace AeordbSync
open Characters OsPath FileSystem Effect Firsts

/-- A file, and what comes of planning it. -/
abbrev PlanOutcome := PendingPushFile × Except Text PlannedFileChunks

/-- The plan of a range of files, given what comes of planning each of them. -/
def planRangeOf (plan : PartialPushBatchPlan) (index : Nat) : List PlanOutcome → Except Text PartialPushBatchPlan
  | [] => .ok plan
  | (_, .error message) :: _ => .error message
  | (file, .ok planned) :: rest => planRangeOf (addPlannedFile plan index file planned) (index + 1) rest

/-- The first range that fails decides about the error. -/
def planRangesOf : List (Nat × List PlanOutcome) → Except Text (List PartialPushBatchPlan)
  | [] => .ok []
  | (index, outcomes) :: rest =>
      match planRangeOf ⟨[], [], []⟩ index outcomes, planRangesOf rest with
      | .error message, _ => .error message
      | .ok _, .error message => .error message
      | .ok plan, .ok plans => .ok (plan :: plans)

/-- The plan that a number of workers make together. -/
def planBatchOf (workerCount : Nat) (outcomes : List PlanOutcome) : Except Text PushBatchPlan :=
  if workerCount ≤ 1 then
    (planRangeOf ⟨[], [], []⟩ 0 outcomes).map fun plan => mergePartialPushBatchPlans [plan]
  else
    let filesPerWorker := (outcomes.length + workerCount - 1) / workerCount
    (planRangesOf (workerRanges filesPerWorker outcomes)).map mergePartialPushBatchPlans

/-- The files with their chunks, or the error of the first file that fails. -/
def plannedFiles : List PlanOutcome → Except Text (List (PendingPushFile × PlannedFileChunks))
  | [] => .ok []
  | (_, .error message) :: _ => .error message
  | (file, .ok planned) :: rest => (plannedFiles rest).map fun others => (file, planned) :: others

def chunkRefsOf (files : List (PendingPushFile × PlannedFileChunks)) : List PendingChunkRef :=
  files.flatMap fun file => file.2.chunkRefs

def indexedCommits (index : Nat) (files : List (PendingPushFile × PlannedFileChunks)) : List (Nat × CommitFile) :=
  (files.zipIdx index).map fun file => (file.2, commitFileOf file.1.1 file.1.2.chunkHashes)

/-- The plan of a range in one piece. -/
def rangePlan (index : Nat) (files : List (PendingPushFile × PlannedFileChunks)) : PartialPushBatchPlan where
  indexedCommitFiles := indexedCommits index files
  uniqueHashes := (firsts PendingChunkRef.hash (chunkRefsOf files)).map PendingChunkRef.hash
  uploadChunks := firsts PendingChunkRef.hash (chunkRefsOf files)

/-- The plan of a batch in one piece. -/
def batchPlan (files : List (PendingPushFile × PlannedFileChunks)) : PushBatchPlan where
  commitFiles := files.map fun file => commitFileOf file.1 file.2.chunkHashes
  uniqueHashes := (firsts PendingChunkRef.hash (chunkRefsOf files)).map PendingChunkRef.hash
  uploadChunks := firsts PendingChunkRef.hash (chunkRefsOf files)

variable {files : List (PendingPushFile × PlannedFileChunks)} {plan : PartialPushBatchPlan}

theorem addChunkRef_uploadChunks (refs : List PendingChunkRef) :
    (refs.foldl addChunkRef plan).uploadChunks = refs.foldl (keep PendingChunkRef.hash) plan.uploadChunks := by
  induction refs generalizing plan with
  | nil => rfl
  | cons ref rest ih =>
      rw [List.foldl_cons, ih, List.foldl_cons]
      unfold addChunkRef keep
      split <;> rfl

/-- The unique hashes are those of the references. -/
theorem addChunkRef_uniqueHashes (refs : List PendingChunkRef)
    (keyed : plan.uniqueHashes = plan.uploadChunks.map PendingChunkRef.hash) :
    (refs.foldl addChunkRef plan).uniqueHashes =
      (refs.foldl addChunkRef plan).uploadChunks.map PendingChunkRef.hash := by
  induction refs generalizing plan with
  | nil => exact keyed
  | cons ref rest ih =>
      apply ih
      unfold addChunkRef
      split
      · exact keyed
      · rw [List.map_append, ← keyed]
        rfl

theorem addPlannedFile_uploadChunks (index : Nat) (file : PendingPushFile) (planned : PlannedFileChunks) :
    (addPlannedFile plan index file planned).uploadChunks =
      planned.chunkRefs.foldl (keep PendingChunkRef.hash) plan.uploadChunks :=
  addChunkRef_uploadChunks _

theorem addPlannedFile_uniqueHashes (index : Nat) (file : PendingPushFile) (planned : PlannedFileChunks)
    (keyed : plan.uniqueHashes = plan.uploadChunks.map PendingChunkRef.hash) :
    (addPlannedFile plan index file planned).uniqueHashes =
      (addPlannedFile plan index file planned).uploadChunks.map PendingChunkRef.hash :=
  addChunkRef_uniqueHashes _ keyed

theorem addPlannedFile_indexed (index : Nat) (file : PendingPushFile) (planned : PlannedFileChunks) :
    (addPlannedFile plan index file planned).indexedCommitFiles =
      plan.indexedCommitFiles ++ [(index, commitFileOf file planned.chunkHashes)] := by
  simp [addPlannedFile, addChunkRef_indexedCommitFiles]

/-- Planning a range extends the plan by what the files bring, or ends with the first error. -/
theorem planRangeOf_eq (outcomes : List PlanOutcome) (index : Nat)
    (keyed : plan.uniqueHashes = plan.uploadChunks.map PendingChunkRef.hash) :
    planRangeOf plan index outcomes = (plannedFiles outcomes).map fun files =>
      let upload := (chunkRefsOf files).foldl (keep PendingChunkRef.hash) plan.uploadChunks
      ⟨plan.indexedCommitFiles ++ indexedCommits index files, upload.map PendingChunkRef.hash, upload⟩ := by
  induction outcomes generalizing plan index with
  | nil =>
      obtain ⟨indexed, unique, upload⟩ := plan
      simp only at keyed
      subst keyed
      simp [planRangeOf, plannedFiles, Except.map, chunkRefsOf, indexedCommits]
  | cons outcome rest ih =>
      obtain ⟨file, error | planned⟩ := outcome
      · rfl
      · rw [planRangeOf, ih _ (addPlannedFile_uniqueHashes index file planned keyed), plannedFiles]
        cases plannedFiles rest with
        | error message => rfl
        | ok files =>
            simp only [Except.map, addPlannedFile_indexed, addPlannedFile_uploadChunks, chunkRefsOf,
              indexedCommits, List.flatMap_cons, List.foldl_append, List.zipIdx_cons, List.map_cons,
              List.append_assoc, List.singleton_append]

theorem planRangeOf_empty (outcomes : List PlanOutcome) (index : Nat) :
    planRangeOf ⟨[], [], []⟩ index outcomes = (plannedFiles outcomes).map (rangePlan index) :=
  planRangeOf_eq outcomes index rfl

theorem plannedFiles_append (front back : List PlanOutcome) :
    plannedFiles (front ++ back) =
      (plannedFiles front).bind fun first => (plannedFiles back).map fun second => first ++ second := by
  induction front with
  | nil =>
      show plannedFiles back = (plannedFiles back).map fun second => [] ++ second
      cases plannedFiles back <;> rfl
  | cons outcome rest ih =>
      obtain ⟨file, error | planned⟩ := outcome
      · rfl
      · rw [List.cons_append, plannedFiles, ih, plannedFiles]
        cases plannedFiles rest with
        | error message => rfl
        | ok first => cases plannedFiles back <;> rfl

theorem length_plannedFiles {outcomes : List PlanOutcome} (succeeded : plannedFiles outcomes = .ok files) :
    files.length = outcomes.length := by
  induction outcomes generalizing files with
  | nil =>
      cases succeeded
      rfl
  | cons outcome rest ih =>
      obtain ⟨file, error | planned⟩ := outcome
      · cases succeeded
      · rw [plannedFiles] at succeeded
        cases others : plannedFiles rest with
        | error message =>
            rw [others] at succeeded
            cases succeeded
        | ok more =>
            rw [others] at succeeded
            cases succeeded
            rw [List.length_cons, List.length_cons, ih others]

/-- Each range starts where the one before it ends. -/
def Consecutive {α : Type} : Nat → List (Nat × List α) → Prop
  | _, [] => True
  | start, (index, part) :: rest => index = start ∧ Consecutive (start + part.length) rest

/-- The ranges succeed, or fail, as their files do one after the other. -/
theorem planRangesOf_eq {start : Nat} {ranges : List (Nat × List PlanOutcome)}
    (consecutive : Consecutive start ranges) :
    (∀ message, plannedFiles (ranges.flatMap Prod.snd) = .error message → planRangesOf ranges = .error message) ∧
      ∀ files, plannedFiles (ranges.flatMap Prod.snd) = .ok files →
        ∃ parts : List (Nat × List (PendingPushFile × PlannedFileChunks)),
          planRangesOf ranges = .ok (parts.map fun part => rangePlan part.1 part.2) ∧
          Consecutive start parts ∧ parts.flatMap Prod.snd = files := by
  induction ranges generalizing start with
  | nil =>
      refine ⟨fun message failed => ?_, fun files succeeded => ?_⟩
      · cases failed
      · cases succeeded
        exact ⟨[], rfl, trivial, rfl⟩
  | cons range rest ih =>
      obtain ⟨index, outcomes⟩ := range
      obtain ⟨rfl, later⟩ := consecutive
      rw [List.flatMap_cons, plannedFiles_append, planRangesOf, planRangeOf_empty]
      cases first : plannedFiles outcomes with
      | error message =>
          refine ⟨fun other failed => ?_, fun files succeeded => ?_⟩
          · cases failed
            rfl
          · cases succeeded
      | ok files =>
          cases second : plannedFiles (rest.flatMap Prod.snd) with
          | error message =>
              refine ⟨fun other failed => ?_, fun files succeeded => ?_⟩
              · cases failed
                rw [(ih later).1 message second]
                rfl
              · cases succeeded
          | ok others =>
              refine ⟨fun other failed => ?_, fun whole succeeded => ?_⟩
              · cases failed
              · cases succeeded
                obtain ⟨parts, planned, following, flat⟩ := (ih later).2 others second
                refine ⟨(index, files) :: parts, ?_, ⟨rfl, ?_⟩, ?_⟩
                · rw [planned]
                  rfl
                · rw [length_plannedFiles first]
                  exact following
                · rw [List.flatMap_cons, flat]

theorem consecutive_chunksFrom {α : Type} {size : Nat} {current : List α} (room : current.length < size)
    (xs : List α) (index : Nat) :
    Consecutive (index * size)
      (((chunksFrom size current xs).zipIdx index).map fun part => (part.2 * size, part.1)) := by
  induction xs generalizing current index with
  | nil =>
      unfold chunksFrom
      split
      · trivial
      · exact ⟨rfl, trivial⟩
  | cons x rest ih =>
      unfold chunksFrom
      split
      next full =>
        refine ⟨rfl, ?_⟩
        have next := ih (show ([] : List α).length < size by rw [List.length_nil]; omega) (index + 1)
        rwa [List.length_append, List.length_singleton, full, ← Nat.succ_mul]
      next space =>
        apply ih
        rw [List.length_append, List.length_singleton]
        omega

theorem consecutive_workerRanges {α : Type} {filesPerWorker : Nat} (positive : 0 < filesPerWorker)
    (files : List α) : Consecutive 0 (workerRanges filesPerWorker files) := by
  have ranges := consecutive_chunksFrom (show ([] : List α).length < filesPerWorker from positive) files 0
  rwa [Nat.zero_mul] at ranges

theorem indexedCommits_append (index : Nat) (front back : List (PendingPushFile × PlannedFileChunks)) :
    indexedCommits index (front ++ back) =
      indexedCommits index front ++ indexedCommits (index + front.length) back := by
  rw [indexedCommits, List.zipIdx_append, List.map_append]
  rfl

theorem indexedCommits_parts {start : Nat} {parts : List (Nat × List (PendingPushFile × PlannedFileChunks))}
    (consecutive : Consecutive start parts) :
    parts.flatMap (fun part => indexedCommits part.1 part.2) = indexedCommits start (parts.flatMap Prod.snd) := by
  induction parts generalizing start with
  | nil => rfl
  | cons part rest ih =>
      obtain ⟨index, files⟩ := part
      obtain ⟨rfl, later⟩ := consecutive
      rw [List.flatMap_cons, List.flatMap_cons, ih later, indexedCommits_append]

/-- Commits that are numbered in order stay where they are. -/
theorem sorted_indexedCommits (index : Nat) (files : List (PendingPushFile × PlannedFileChunks)) :
    ((indexedCommits index files).insertionSort fun a b => a.1 ≤ b.1) = indexedCommits index files := by
  apply List.Pairwise.insertionSort_eq
  rw [indexedCommits, List.pairwise_map]
  induction files generalizing index with
  | nil => exact .nil
  | cons file rest ih =>
      rw [List.zipIdx_cons]
      refine .cons (fun other later => ?_) (ih (index + 1))
      exact Nat.le_of_succ_le (List.le_snd_of_mem_zipIdx later)

theorem map_indexedCommits (index : Nat) (files : List (PendingPushFile × PlannedFileChunks)) :
    (indexedCommits index files).map Prod.snd = files.map fun file => commitFileOf file.1 file.2.chunkHashes := by
  induction files generalizing index with
  | nil => rfl
  | cons file rest ih =>
      have tail := ih (index + 1)
      rw [indexedCommits, List.map_map] at tail ⊢
      rw [List.zipIdx_cons, List.map_cons, tail]
      rfl

/-- Merging the hashes of a plan keeps its references one after the other. -/
theorem mergeChunk_eq {merged : PushBatchPlan} {refs : List PendingChunkRef}
    (distinct : (plan.uploadChunks.map PendingChunkRef.hash).Nodup) (inside : ∀ ref ∈ refs, ref ∈ plan.uploadChunks)
    (keyed : merged.uniqueHashes = merged.uploadChunks.map PendingChunkRef.hash) :
    (refs.map PendingChunkRef.hash).foldl (mergeChunk plan) merged =
      { merged with
        uniqueHashes := (refs.foldl (keep PendingChunkRef.hash) merged.uploadChunks).map PendingChunkRef.hash
        uploadChunks := refs.foldl (keep PendingChunkRef.hash) merged.uploadChunks } := by
  induction refs generalizing merged with
  | nil =>
      obtain ⟨commits, unique, upload⟩ := merged
      simp only at keyed
      subst keyed
      rfl
  | cons ref rest ih =>
      have present := inside ref (.head _)
      have found : (plan.uploadChunks.find? fun other => other.hash = ref.hash) = some ref :=
        find_own distinct present
      have one : mergeChunk plan merged ref.hash =
          { merged with
            uniqueHashes := (keep PendingChunkRef.hash merged.uploadChunks ref).map PendingChunkRef.hash
            uploadChunks := keep PendingChunkRef.hash merged.uploadChunks ref } := by
        rw [mergeChunk, found]
        unfold keep
        split
        · obtain ⟨commits, unique, upload⟩ := merged
          simp only at keyed
          subst keyed
          rfl
        · rw [List.map_append, ← keyed]
          rfl
      rw [List.map_cons, List.foldl_cons, one, ih (fun other later => inside other (.tail _ later)) rfl]
      rfl

theorem mergePlans_eq (parts : List (Nat × List (PendingPushFile × PlannedFileChunks))) {merged : PushBatchPlan}
    (keyed : merged.uniqueHashes = merged.uploadChunks.map PendingChunkRef.hash) :
    (parts.map fun part => rangePlan part.1 part.2).foldl
        (fun merged plan => plan.uniqueHashes.foldl (mergeChunk plan) merged) merged =
      { merged with
        uniqueHashes := ((chunkRefsOf (parts.flatMap Prod.snd)).foldl (keep PendingChunkRef.hash)
          merged.uploadChunks).map PendingChunkRef.hash
        uploadChunks := (chunkRefsOf (parts.flatMap Prod.snd)).foldl (keep PendingChunkRef.hash)
          merged.uploadChunks } := by
  induction parts generalizing merged with
  | nil =>
      obtain ⟨commits, unique, upload⟩ := merged
      simp only at keyed
      subst keyed
      rfl
  | cons part rest ih =>
      have one := @mergeChunk_eq (rangePlan part.1 part.2) _ _ (nodup_foldl List.nodup_nil) (fun _ => id) keyed
      rw [List.map_cons, List.foldl_cons, show (rangePlan part.1 part.2).uniqueHashes =
        (rangePlan part.1 part.2).uploadChunks.map PendingChunkRef.hash from rfl, one, ih rfl]
      have whole : chunkRefsOf ((part :: rest).flatMap Prod.snd) =
          chunkRefsOf part.2 ++ chunkRefsOf (rest.flatMap Prod.snd) := by
        rw [List.flatMap_cons, chunkRefsOf, List.flatMap_append]
        rfl
      rw [whole, List.foldl_append]
      simp only [rangePlan, foldl_firsts]

/-- Plans of consecutive ranges merge into the plan of the whole. -/
theorem mergePartialPushBatchPlans_eq {parts : List (Nat × List (PendingPushFile × PlannedFileChunks))}
    (consecutive : Consecutive 0 parts) :
    mergePartialPushBatchPlans (parts.map fun part => rangePlan part.1 part.2) =
      batchPlan (parts.flatMap Prod.snd) := by
  have commits : (parts.map fun part => rangePlan part.1 part.2).flatMap PartialPushBatchPlan.indexedCommitFiles =
      indexedCommits 0 (parts.flatMap Prod.snd) := by
    rw [List.flatMap_map, ← indexedCommits_parts consecutive]
    rfl
  rw [mergePartialPushBatchPlans, mergePlans_eq parts rfl]
  simp only [commits, sorted_indexedCommits, map_indexedCommits]
  rfl

/-- Consecutive ranges together come to the plan of the whole. -/
theorem planRangesOf_merged {ranges : List (Nat × List PlanOutcome)} (consecutive : Consecutive 0 ranges) :
    (planRangesOf ranges).map mergePartialPushBatchPlans =
      (plannedFiles (ranges.flatMap Prod.snd)).map batchPlan := by
  obtain ⟨failed, succeeded⟩ := planRangesOf_eq consecutive
  cases planned : plannedFiles (ranges.flatMap Prod.snd) with
  | error message =>
      rw [failed message planned]
      rfl
  | ok files =>
      obtain ⟨parts, equal, following, flat⟩ := succeeded files planned
      rw [equal, ← flat]
      exact congrArg Except.ok (mergePartialPushBatchPlans_eq following)

theorem planRangeOf_merged (outcomes : List PlanOutcome) :
    ((planRangeOf ⟨[], [], []⟩ 0 outcomes).map fun plan => mergePartialPushBatchPlans [plan]) =
      (plannedFiles outcomes).map batchPlan := by
  rw [planRangeOf_empty]
  cases plannedFiles outcomes with
  | error message => rfl
  | ok files =>
      have merged := @mergePartialPushBatchPlans_eq [(0, files)] ⟨rfl, trivial⟩
      rw [List.flatMap_singleton] at merged
      exact congrArg Except.ok merged

/-- More than one worker gets at least one file each. -/
theorem filesPerWorker_pos {count workerCount : Nat} (several : 1 < workerCount) (filled : 0 < count) :
    0 < (count + workerCount - 1) / workerCount := by
  apply Nat.div_pos <;> omega

/-- Whatever the number of workers, the plan is the one of the whole list. -/
theorem planBatchOf_eq (workerCount : Nat) (outcomes : List PlanOutcome) :
    planBatchOf workerCount outcomes = (plannedFiles outcomes).map batchPlan := by
  unfold planBatchOf
  split
  · exact planRangeOf_merged outcomes
  next several =>
    cases outcomes with
    | nil => rfl
    | cons outcome rest =>
        have positive := filesPerWorker_pos (not_le.mp several) (Nat.succ_pos rest.length)
        have merged := planRangesOf_merged (consecutive_workerRanges positive (outcome :: rest))
        rwa [workerRanges_files] at merged

/-- Workers plan a batch as one of them does alone. -/
theorem planBatchOf_parallel (workerCount : Nat) (outcomes : List PlanOutcome) :
    planBatchOf workerCount outcomes = planBatchOf 1 outcomes := by
  rw [planBatchOf_eq, planBatchOf_eq]

/-- What a planned file is on the disk: its content, cut as the reads came, with the recorded size and hash. -/
structure Described {ρ : Type} (env : Env ρ) (config : BlobConfig) (disk : Tree) (file : PendingPushFile)
    (planned : PlannedFileChunks) (pieces : List Bytes) : Prop where
  read : disk.read file.localPath = .ok pieces.flatten
  hashes : planned.chunkHashes = pieces.map (chunkHash env.digest config.chunkHashPrefix)
  refs : planned.chunkRefs = chunkRefsFrom env config file.localPath 0 pieces
  size : pieces.flatten.length = file.fileSize
  hash : env.digest pieces.flatten = file.contentHash
  cut : ∃ tick, pieces = env.pieces tick (max config.chunkSize 1) pieces.flatten

/-- Outcomes for the files of a list, in which every success describes its file. -/
def OutcomesOf {ρ : Type} (env : Env ρ) (config : BlobConfig) (disk : Tree) (files : List PendingPushFile)
    (outcomes : List PlanOutcome) : Prop :=
  outcomes.map Prod.fst = files ∧ ∀ outcome ∈ outcomes, ∀ planned, outcome.2 = .ok planned →
    ∃ pieces, Described env config disk outcome.1 planned pieces

section Program

variable {ρ : Type} {env : Env ρ} {config : BlobConfig} {w : World ρ} {E : ClientError → World ρ → Prop}

theorem planFileChunks_described {file : PendingPushFile} :
    Triple (Unmoved w) (planFileChunks env file config)
      (fun r next => Unmoved w next ∧ ∀ planned, r = .ok planned →
        ∃ pieces, Described env config w.disk file planned pieces) E := by
  apply Triple.bind readFile_unmoved
  intro result
  cases result with
  | error message => exact Triple.ret fun _ holds => ⟨holds.1, fun _ equal => by cases equal⟩
  | ok content =>
      have cut : Triple (fun next => Unmoved w next ∧ w.disk.read file.localPath = .ok content)
          (cutPieces env (max config.chunkSize 1) content)
          (fun pieces next => Unmoved w next ∧ w.disk.read file.localPath = .ok pieces.flatten ∧
            ∃ tick, pieces = env.pieces tick (max config.chunkSize 1) pieces.flatten) E := by
        intro next holds
        have whole := env.pieces_flatten next.tick (max config.chunkSize 1) content
          (Nat.lt_of_lt_of_le Nat.one_pos (Nat.le_max_right _ _))
        exact ⟨holds.1.advance, by rw [whole]; exact holds.2, next.tick, by rw [whole]⟩
      apply Triple.bind (cut.weaken fun _ holds => ⟨holds.1, holds.2 content rfl⟩)
      intro pieces
      apply Triple.ite
      · exact fun _ => Triple.ret fun _ holds => ⟨holds.1, fun _ equal => by cases equal⟩
      · intro same
        apply Triple.ret
        intro next holds
        refine ⟨holds.1, fun planned equal => ⟨pieces, ?_⟩⟩
        rw [not_or, not_not, not_not] at same
        cases equal
        exact ⟨holds.2.1, rfl, rfl, same.1, same.2, holds.2.2⟩

theorem OutcomesOf.cons {file : PendingPushFile} {files : List PendingPushFile} {disk : Tree}
    {outcomes : List PlanOutcome} (others : OutcomesOf env config disk files outcomes)
    {outcome : Except Text PlannedFileChunks}
    (first : ∀ planned, outcome = .ok planned → ∃ pieces, Described env config disk file planned pieces) :
    OutcomesOf env config disk (file :: files) ((file, outcome) :: outcomes) := by
  constructor
  · rw [List.map_cons, others.1]
  · intro other inside
    rcases List.mem_cons.mp inside with rfl | later
    · exact first
    · exact others.2 other later

/-- Files whose planning was not reached. -/
theorem outcomesOf_unreached (disk : Tree) (files : List PendingPushFile) :
    OutcomesOf env config disk files (files.map fun file => (file, .error [])) := by
  constructor
  · rw [List.map_map]
    exact List.map_id _
  · intro outcome inside planned equal
    obtain ⟨file, _, rfl⟩ := List.mem_map.mp inside
    cases equal

theorem planPushBatchRange_outcomes {files : List PendingPushFile} {plan : PartialPushBatchPlan} {index : Nat} :
    Triple (Unmoved w) (planPushBatchRange env config plan index files)
      (fun r next => Unmoved w next ∧ ∃ outcomes, OutcomesOf env config w.disk files outcomes ∧
        r = planRangeOf plan index outcomes) E := by
  induction files generalizing plan index with
  | nil => exact Triple.ret fun _ unmoved => ⟨unmoved, [], ⟨rfl, fun _ inside => by cases inside⟩, rfl⟩
  | cons file rest ih =>
      apply Triple.bind planFileChunks_described
      intro outcome
      cases outcome with
      | error message =>
          apply Triple.ret
          intro next holds
          have failed : ∀ planned, (.error message : Except Text PlannedFileChunks) = .ok planned →
              ∃ pieces, Described env config w.disk file planned pieces := fun _ equal => by cases equal
          exact ⟨holds.1, _, (outcomesOf_unreached w.disk rest).cons failed, rfl⟩
      | ok planned =>
          apply Triple.assume (fun _ holds => holds.2)
          intro described
          apply (ih.weaken fun _ holds => holds.1).strengthen
          rintro r next ⟨unmoved, outcomes, others, rfl⟩
          exact ⟨unmoved, _, others.cons described, rfl⟩

theorem planRanges_outcomes {ranges : List (Nat × List PendingPushFile)} :
    Triple (Unmoved w) (planRanges env config ranges)
      (fun r next => Unmoved w next ∧ ∃ planned : List (Nat × List PlanOutcome),
        List.Forall₂ (fun range outcomes => range.1 = outcomes.1 ∧
          OutcomesOf env config w.disk range.2 outcomes.2) ranges planned ∧ r = planRangesOf planned) E := by
  induction ranges with
  | nil => exact Triple.ret fun _ unmoved => ⟨unmoved, [], .nil, rfl⟩
  | cons range rest ih =>
      obtain ⟨index, files⟩ := range
      apply Triple.bind planPushBatchRange_outcomes
      intro first
      apply Triple.assume (fun _ holds => holds.2)
      rintro ⟨outcomes, described, rfl⟩
      apply Triple.bind (ih.weaken fun _ holds => holds.1)
      intro others
      apply Triple.assume (fun _ holds => holds.2)
      rintro ⟨planned, related, rfl⟩
      have whole : planRangesOf ((index, outcomes) :: planned) =
          match planRangeOf ⟨[], [], []⟩ index outcomes, planRangesOf planned with
          | .error message, _ => .error message
          | .ok _, .error message => .error message
          | .ok plan, .ok plans => .ok (plan :: plans) := rfl
      cases one : planRangeOf ⟨[], [], []⟩ index outcomes with
      | error message =>
          rw [one] at whole
          exact Triple.ret fun _ holds => ⟨holds.1, _, .cons ⟨rfl, described⟩ related, whole.symm⟩
      | ok plan => cases more : planRangesOf planned with
          | error message =>
              rw [one, more] at whole
              exact Triple.ret fun _ holds => ⟨holds.1, _, .cons ⟨rfl, described⟩ related, whole.symm⟩
          | ok plans =>
              rw [one, more] at whole
              exact Triple.ret fun _ holds => ⟨holds.1, _, .cons ⟨rfl, described⟩ related, whole.symm⟩

theorem OutcomesOf.append {front back : List PendingPushFile} {disk : Tree} {first second : List PlanOutcome}
    (one : OutcomesOf env config disk front first) (other : OutcomesOf env config disk back second) :
    OutcomesOf env config disk (front ++ back) (first ++ second) := by
  constructor
  · rw [List.map_append, one.1, other.1]
  · intro outcome inside
    rcases List.mem_append.mp inside with early | late
    · exact one.2 outcome early
    · exact other.2 outcome late

/-- The outcomes of the ranges are outcomes of their files, and the ranges stay consecutive. -/
theorem outcomesOf_ranges {ranges : List (Nat × List PendingPushFile)} {planned : List (Nat × List PlanOutcome)}
    {disk : Tree} (related : List.Forall₂ (fun range outcomes => range.1 = outcomes.1 ∧
      OutcomesOf env config disk range.2 outcomes.2) ranges planned) :
    OutcomesOf env config disk (ranges.flatMap Prod.snd) (planned.flatMap Prod.snd) ∧
      ∀ start, Consecutive start ranges → Consecutive start planned := by
  induction related with
  | nil => exact ⟨⟨rfl, fun _ inside => by cases inside⟩, fun _ _ => trivial⟩
  | @cons range outcomes others more first _ ih =>
      constructor
      · rw [List.flatMap_cons, List.flatMap_cons]
        exact first.2.append ih.1
      · rintro start ⟨begins, later⟩
        refine ⟨first.1.symm.trans begins, ?_⟩
        have length : outcomes.2.length = range.2.length := by rw [← first.2.1, List.length_map]
        rw [length]
        exact ih.2 _ later

/-- The plan of a batch is the one that its outcomes come to. -/
theorem planPushBatch_outcomes {files : List PendingPushFile} :
    Triple (Unmoved w) (planPushBatch env files config)
      (fun r next => Unmoved w next ∧ ∃ outcomes, OutcomesOf env config w.disk files outcomes ∧
        r = planBatchOf (pushWorkerCount env.parallelism files.length) outcomes) E := by
  apply Triple.ite
  · intro alone
    apply Triple.bind planPushBatchRange_outcomes
    intro outcome
    apply Triple.assume (fun _ holds => holds.2)
    rintro ⟨outcomes, described, rfl⟩
    have whole : planBatchOf (pushWorkerCount env.parallelism files.length) outcomes =
        (planRangeOf ⟨[], [], []⟩ 0 outcomes).map fun plan => mergePartialPushBatchPlans [plan] := if_pos alone
    cases one : planRangeOf ⟨[], [], []⟩ 0 outcomes with
    | error message =>
        rw [one] at whole
        exact Triple.ret fun _ holds => ⟨holds.1, outcomes, described, whole.symm⟩
    | ok plan =>
        rw [one] at whole
        exact Triple.ret fun _ holds => ⟨holds.1, outcomes, described, whole.symm⟩
  · intro several
    apply Triple.bind planRanges_outcomes
    intro outcome
    apply Triple.assume (fun _ holds => holds.2)
    rintro ⟨planned, related, rfl⟩
    obtain ⟨described, following⟩ := outcomesOf_ranges related
    rw [workerRanges_files] at described
    have filled : 0 < files.length := by
      by_contra empty
      have none : files.length = 0 := by omega
      rw [none] at several
      exact several (Nat.zero_le 1)
    have consecutive := following 0 (consecutive_workerRanges (filesPerWorker_pos (not_le.mp several) filled) files)
    have whole : planBatchOf (pushWorkerCount env.parallelism files.length) (planned.flatMap Prod.snd) =
        (planRangesOf planned).map mergePartialPushBatchPlans := by
      rw [planBatchOf_eq, planRangesOf_merged consecutive]
    cases one : planRangesOf planned with
    | error message =>
        rw [one] at whole
        exact Triple.ret fun _ holds => ⟨holds.1, _, described, whole.symm⟩
    | ok plans =>
        rw [one] at whole
        exact Triple.ret fun _ holds => ⟨holds.1, _, described, whole.symm⟩

end Program

end AeordbSync

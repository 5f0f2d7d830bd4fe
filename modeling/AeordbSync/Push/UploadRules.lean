import AeordbSync.Rules

namespace AeordbSync
open Characters OsPath FileSystem Effect

variable {ρ : Type} {env : Env ρ} {w : World ρ}

theorem openFile_unmoved {path : PathBuf} {E : ClientError → World ρ → Prop} :
    Triple (Unmoved w) (openFile env path) (fun _ => Unmoved w) E :=
  readDisk_unmoved.strengthen fun _ _ holds => holds.1

theorem readFile_unmoved {path : PathBuf} {E : ClientError → World ρ → Prop} :
    Triple (Unmoved w) (readFile env path)
      (fun r next => Unmoved w next ∧ ∀ content, r = .ok content → w.disk.read path = .ok content) E := by
  refine Triple.bind openFile_unmoved fun opened => ?_
  cases opened with
  | error error => exact Triple.ret fun _ unmoved => ⟨unmoved, fun _ equal => by cases equal⟩
  | ok _ =>
      refine Triple.bind readDisk_unmoved fun result => ?_
      cases result with
      | error error => exact Triple.ret fun _ holds => ⟨holds.1, fun _ equal => by cases equal⟩
      | ok content =>
          refine Triple.ret fun next holds => ⟨holds.1, fun other equal => ?_⟩
          simp only [Except.ok.injEq] at equal
          subst other
          rcases holds.2 with found | ⟨error, tick, found, -⟩
          · exact found.symm
          · cases found

theorem hashFileContent_unmoved {path : PathBuf} {E : ClientError → World ρ → Prop} :
    Triple (Unmoved w) (hashFileContent env path)
      (fun r next => Unmoved w next ∧ ∀ hash size, r = .ok (hash, size) →
        ∃ content, w.disk.read path = .ok content ∧ hash = env.digest content ∧ size = content.length)
      E := by
  refine Triple.bind readFile_unmoved fun result => ?_
  cases result with
  | error message => exact Triple.ret fun _ holds => ⟨holds.1, fun _ _ equal => by cases equal⟩
  | ok content =>
      refine Triple.ret fun next holds => ⟨holds.1, fun hash size equal => ?_⟩
      simp only [Except.ok.injEq, Prod.mk.injEq] at equal
      exact ⟨content, holds.2 content rfl, equal.1.symm, equal.2.symm⟩

/-- The commit entry names chunks that make up a content with the recorded hash. -/
def Planned (env : Env ρ) (config : BlobConfig) (file : PendingPushFile) (commit : CommitFile) : Prop :=
  commit.path = file.remotePath ∧ ∃ pieces : List Bytes,
    commit.chunks = pieces.map (chunkHash env.digest config.chunkHashPrefix) ∧
      env.digest pieces.flatten = file.contentHash ∧ pieces.flatten.length = file.fileSize

variable {config : BlobConfig}

theorem planFileChunks_unmoved {file : PendingPushFile} {E : ClientError → World ρ → Prop} :
    Triple (Unmoved w) (planFileChunks env file config)
      (fun r next => Unmoved w next ∧ ∀ planned, r = .ok planned →
        Planned env config file (commitFileOf file planned.chunkHashes)) E := by
  refine Triple.bind readFile_unmoved fun result => ?_
  cases result with
  | error message => exact Triple.ret fun _ holds => ⟨holds.1, fun _ equal => by cases equal⟩
  | ok content =>
      have cut : Triple (Unmoved w) (cutPieces env (max config.chunkSize 1) content)
          (fun _ => Unmoved w) E := fun _ unmoved => unmoved.advance
      refine Triple.bind (cut.weaken fun _ holds => holds.1) fun pieces => ?_
      refine Triple.ite (fun _ => Triple.ret fun _ unmoved => ⟨unmoved, fun _ equal => by cases equal⟩)
        fun same => Triple.ret fun _ unmoved => ⟨unmoved, fun planned equal => ?_⟩
      simp only [Except.ok.injEq] at equal
      subst planned
      rw [not_or, not_not, not_not] at same
      exact ⟨rfl, pieces, rfl, same.2, same.1⟩

theorem chunkRefsFrom_hashes (path : PathBuf) (offset : Nat) (pieces : List Bytes) :
    (chunkRefsFrom env config path offset pieces).map PendingChunkRef.hash =
      pieces.map (chunkHash env.digest config.chunkHashPrefix) := by
  induction pieces generalizing offset with
  | nil => rfl
  | cons piece rest ih => simp [chunkRefsFrom, ih]

theorem addChunkRef_indexedCommitFiles (plan : PartialPushBatchPlan) (refs : List PendingChunkRef) :
    (refs.foldl addChunkRef plan).indexedCommitFiles = plan.indexedCommitFiles := by
  induction refs generalizing plan with
  | nil => rfl
  | cons ref rest ih =>
      rw [List.foldl_cons, ih]
      unfold addChunkRef
      split <;> rfl

def PartialPushBatchPlan.commitFiles (plan : PartialPushBatchPlan) : List CommitFile :=
  plan.indexedCommitFiles.map Prod.snd

theorem addPlannedFile_commitFiles (plan : PartialPushBatchPlan) (index : Nat) (file : PendingPushFile)
    (planned : PlannedFileChunks) : (addPlannedFile plan index file planned).commitFiles =
      plan.commitFiles ++ [commitFileOf file planned.chunkHashes] := by
  simp [addPlannedFile, PartialPushBatchPlan.commitFiles, addChunkRef_indexedCommitFiles]

/-- One worker plans its files in order. -/
theorem planPushBatchRange_unmoved {plan : PartialPushBatchPlan} {index : Nat}
    {files : List PendingPushFile} {E : ClientError → World ρ → Prop} :
    Triple (Unmoved w) (planPushBatchRange env config plan index files)
      (fun r next => Unmoved w next ∧ ∀ result, r = .ok result → ∃ commits,
        List.Forall₂ (Planned env config) files commits ∧
          result.commitFiles = plan.commitFiles ++ commits) E := by
  induction files generalizing plan index with
  | nil =>
      refine Triple.ret fun _ unmoved => ⟨unmoved, fun result equal => ⟨[], .nil, ?_⟩⟩
      simp only [Except.ok.injEq] at equal
      rw [equal, List.append_nil]
  | cons file rest ih =>
      refine Triple.bind planFileChunks_unmoved fun outcome => ?_
      cases outcome with
      | error message => exact Triple.ret fun _ holds => ⟨holds.1, fun _ equal => by cases equal⟩
      | ok planned =>
          refine Triple.assume (fun _ holds => holds.2 planned rfl) fun first => ?_
          refine (ih.weaken fun _ holds => holds.1).strengthen fun r next holds => ⟨holds.1, ?_⟩
          intro result equal
          obtain ⟨commits, others, same⟩ := holds.2 result equal
          refine ⟨commitFileOf file planned.chunkHashes :: commits, .cons first others, ?_⟩
          rw [same, addPlannedFile_commitFiles, List.append_assoc, List.singleton_append]

theorem planRanges_unmoved {ranges : List (Nat × List PendingPushFile)}
    {E : ClientError → World ρ → Prop} :
    Triple (Unmoved w) (planRanges env config ranges)
      (fun r next => Unmoved w next ∧ ∀ plans, r = .ok plans → ∃ commits,
        List.Forall₂ (Planned env config) (ranges.flatMap Prod.snd) commits ∧
          plans.flatMap PartialPushBatchPlan.commitFiles = commits) E := by
  induction ranges with
  | nil =>
      refine Triple.ret fun _ unmoved => ⟨unmoved, fun plans equal => ⟨[], .nil, ?_⟩⟩
      simp only [Except.ok.injEq] at equal
      rw [← equal, List.flatMap_nil]
  | cons range rest ih =>
      refine Triple.bind planPushBatchRange_unmoved fun first => ?_
      refine Triple.assume (fun _ holds => holds.2) fun firstPlan => ?_
      refine Triple.bind (ih.weaken fun _ holds => holds.1) fun others => ?_
      refine Triple.assume (fun _ holds => holds.2) fun otherPlans => ?_
      cases first with
      | error message => exact Triple.ret fun _ holds => ⟨holds.1, fun _ equal => by cases equal⟩
      | ok plan =>
          cases others with
          | error message => exact Triple.ret fun _ holds => ⟨holds.1, fun _ equal => by cases equal⟩
          | ok plans =>
              refine Triple.ret fun _ holds => ⟨holds.1, fun result equal => ?_⟩
              simp only [Except.ok.injEq] at equal
              subst result
              obtain ⟨commits, planned, same⟩ := firstPlan plan rfl
              obtain ⟨more, tail, equal⟩ := otherPlans plans rfl
              refine ⟨commits ++ more, List.rel_append planned tail, ?_⟩
              rw [List.flatMap_cons, same, equal]
              rfl

theorem chunksFrom_flatten {α : Type} (size : Nat) (current xs : List α) :
    (chunksFrom size current xs).flatten = current ++ xs := by
  induction xs generalizing current with
  | nil =>
      unfold chunksFrom
      split
      next empty => simp [List.isEmpty_iff.mp empty]
      next => simp
  | cons x rest ih =>
      unfold chunksFrom
      split <;> simp [ih]

theorem workerRanges_files {α : Type} (filesPerWorker : Nat) (files : List α) :
    (workerRanges filesPerWorker files).flatMap Prod.snd = files := by
  have parts : ((chunksOf filesPerWorker files).zipIdx.map fun part =>
      (part.2 * filesPerWorker, part.1)).map Prod.snd = chunksOf filesPerWorker files := by
    rw [List.map_map]
    exact List.zipIdx_map_fst ..
  rw [workerRanges, List.flatMap_def, parts, chunksOf, chunksFrom_flatten]
  rfl

theorem mergePartialPushBatchPlans_commitFiles (plans : List PartialPushBatchPlan) :
    (mergePartialPushBatchPlans plans).commitFiles.Perm
      (plans.flatMap PartialPushBatchPlan.commitFiles) := by
  have sorted := List.perm_insertionSort (fun a b : Nat × CommitFile => a.1 ≤ b.1)
    (plans.flatMap PartialPushBatchPlan.indexedCommitFiles)
  have names := sorted.map Prod.snd
  rw [List.map_flatMap] at names
  exact names

/-- The plan holds one commit entry for each file, whatever the number of workers. -/
theorem planPushBatch_unmoved {files : List PendingPushFile} {E : ClientError → World ρ → Prop} :
    Triple (Unmoved w) (planPushBatch env files config)
      (fun r next => Unmoved w next ∧ ∀ plan, r = .ok plan → ∃ commits,
        List.Forall₂ (Planned env config) files commits ∧ plan.commitFiles.Perm commits) E := by
  refine Triple.ite (fun _ => ?_) fun _ => ?_
  · refine Triple.bind planPushBatchRange_unmoved fun outcome => ?_
    cases outcome with
    | error message => exact Triple.ret fun _ holds => ⟨holds.1, fun _ equal => by cases equal⟩
    | ok plan =>
        refine Triple.ret fun _ holds => ⟨holds.1, fun result equal => ?_⟩
        simp only [Except.ok.injEq] at equal
        subst result
        obtain ⟨commits, planned, same⟩ := holds.2 plan rfl
        have merged := mergePartialPushBatchPlans_commitFiles [plan]
        rw [List.flatMap_singleton, same] at merged
        exact ⟨commits, planned, merged⟩
  · refine Triple.bind planRanges_unmoved fun outcome => ?_
    cases outcome with
    | error message => exact Triple.ret fun _ holds => ⟨holds.1, fun _ equal => by cases equal⟩
    | ok plans =>
        refine Triple.ret fun _ holds => ⟨holds.1, fun result equal => ?_⟩
        simp only [Except.ok.injEq] at equal
        subst result
        obtain ⟨commits, planned, same⟩ := holds.2 plans rfl
        rw [workerRanges_files] at planned
        exact ⟨commits, planned, same ▸ mergePartialPushBatchPlans_commitFiles plans⟩

variable {view : ρ → Text → Option RemoteEntry}

/-- The effect belongs to the upload of some of these paths. -/
def OfUpload (paths : List Text) : Event ρ → Prop
  | .committed committed => ∀ path ∈ committed, path ∈ paths
  | .uploaded path => path ∈ paths
  | _ => False

/-- An upload changes the remote at its own paths and nothing on this side. -/
structure Uploads (view : ρ → Text → Option RemoteEntry) (paths : List Text) (w next : World ρ) :
    Prop where
  disk : next.disk = w.disk
  store : next.store = w.store
  log : ∃ new, next.log = new ++ w.log ∧ ∀ event ∈ new, OfUpload paths event
  other : ∀ path ∉ paths, view next.remote path = view w.remote path

namespace Uploads

variable {paths : List Text}

theorem refl (w : World ρ) : Uploads view paths w w :=
  ⟨rfl, rfl, ⟨[], rfl, by simp⟩, fun _ _ => rfl⟩

theorem unmoved {next last : World ρ} (uploads : Uploads view paths w next)
    (still : Unmoved next last) : Uploads view paths w last := by
  refine ⟨still.disk.trans uploads.disk, still.store.trans uploads.store, ?_, fun path outside => ?_⟩
  · rw [still.log]
    exact uploads.log
  · rw [still.remote]
    exact uploads.other path outside

theorem note {next : World ρ} (uploads : Uploads view paths w next) {event : Event ρ}
    (own : OfUpload paths event) : Uploads view paths w { next with log := event :: next.log } := by
  obtain ⟨new, equal, all⟩ := uploads.log
  refine ⟨uploads.disk, uploads.store, ⟨event :: new, by simp [equal], ?_⟩, uploads.other⟩
  intro other inside
  rcases List.mem_cons.mp inside with rfl | later
  · exact own
  · exact all other later

theorem called {next : World ρ} (uploads : Uploads view paths w next) {remote : ρ}
    (other : ∀ path ∉ paths, view remote path = view next.remote path) :
    Uploads view paths w { next with remote := remote } :=
  ⟨uploads.disk, uploads.store, uploads.log,
    fun path outside => (other path outside).trans (uploads.other path outside)⟩

end Uploads

/-- A quiet program keeps what has been uploaded. -/
theorem keepsUploads {α : Type} {paths : List Text} {x : Program ρ α} {F : α → Prop}
    (quiet : ∀ start, Triple (Unmoved start) x (fun a next => Unmoved start next ∧ F a)
      (fun _ => Unmoved start)) :
    Triple (Uploads view paths w) x (fun a next => Uploads view paths w next ∧ F a)
      (fun _ => Uploads view paths w) := by
  refine Triple.fix fun start before => ?_
  refine (quiet start).conseq (fun next equal => .of_eq equal) ?_ ?_
  · exact fun a next holds => ⟨before.unmoved holds.1, holds.2⟩
  · exact fun e next holds => before.unmoved holds

theorem readPendingChunk_uploads {paths : List Text} {chunk : PendingChunkRef}
    {hashPrefix : Text} :
    Triple (Uploads view paths w) (readPendingChunk env chunk hashPrefix)
      (fun _ => Uploads view paths w) (fun _ => Uploads view paths w) := by
  have quiet : ∀ {α : Type} {x : Program ρ (Except IoError α)},
      (∀ start, Triple (Unmoved start) x (fun _ => Unmoved start) (fun _ => Unmoved start)) →
      Triple (Uploads view paths w) (orFail x) (fun _ => Uploads view paths w)
        (fun _ => Uploads view paths w) := by
    intro α x still
    refine orFail_triple ?_
    refine (keepsUploads (F := fun _ => True) fun start => (still start).strengthen
      fun _ _ unmoved => ⟨unmoved, trivial⟩).strengthen fun r next holds => ?_
    cases r <;> exact holds.1
  refine Triple.bind (quiet fun start => openFile_unmoved) fun _ => ?_
  refine Triple.bind (quiet fun start => readDisk_unmoved.strengthen fun _ _ holds => holds.1) fun _ => ?_
  refine Triple.bind (quiet fun start => readDisk_unmoved.strengthen fun _ _ holds => holds.1) fun bytes => ?_
  exact Triple.ite (fun _ => Triple.throw fun _ before => before) fun _ => Triple.ret fun _ before => before

section Frame

variable {paths : List Text} (frame : EngineFrame env.engine view)
include frame

theorem blobCheckGroups_uploads {groups : List (List Text)} :
    Triple (Uploads view paths w) (blobCheckGroups env groups) (fun _ => Uploads view paths w)
      (fun _ => Uploads view paths w) := by
  induction groups with
  | nil => exact Triple.ret fun _ before => before
  | cons group rest ih =>
      refine Triple.bind (callRemote_triple (Q := fun _ => Uploads view paths w) ?_ ?_) fun response => ?_
      · exact fun next a before _ => before.called fun path _ => by rw [frame.blobCheckOnce_view]
      · exact fun next e before _ => before.called fun path _ => by rw [frame.blobCheckOnce_view]
      · exact Triple.bind ih fun others => Triple.ret fun _ before => before

theorem uploadPendingChunk_uploads {chunk : PendingChunkRef} {hashPrefix : Text} :
    Triple (Uploads view paths w) (uploadPendingChunk env hashPrefix chunk)
      (fun _ => Uploads view paths w) (fun _ => Uploads view paths w) := by
  refine Triple.bind readPendingChunk_uploads fun bytes => callRemote_triple ?_ ?_
  · exact fun next a before _ => before.called fun path _ => by rw [frame.uploadChunk_view]
  · exact fun next e before _ => before.called fun path _ => by rw [frame.uploadChunk_view]

theorem checkChunks_uploads {plan : PushBatchPlan} :
    Triple (Uploads view paths w) (checkChunks env plan) (fun _ => Uploads view paths w)
      (fun _ => Uploads view paths w) :=
  Triple.ite (fun _ => Triple.ret fun _ before => before) fun _ =>
    Triple.bind (blobCheckGroups_uploads frame) fun _ => Triple.ret fun _ before => before

theorem uploadChunks_uploads {plan : PushBatchPlan} {needed : List Text} :
    Triple (Uploads view paths w) (uploadChunks env config plan needed)
      (fun _ => Uploads view paths w) (fun _ => Uploads view paths w) := by
  refine Triple.bind (keepsUploads (F := fun _ => True) fun start =>
    arrange_unmoved.strengthen fun _ _ holds => ⟨holds.1, trivial⟩) fun chunks => ?_
  exact (Triple.forEach_keep _ chunks fun chunk _ => uploadPendingChunk_uploads frame).weaken
    fun _ holds => holds.1

theorem pushFileDirectly_uploads {file : PendingPushFile} (inside : file.remotePath ∈ paths) :
    Triple (Uploads view paths w) (pushFileDirectly env file) (fun _ => Uploads view paths w)
      (fun _ => Uploads view paths w) := by
  have opened : Triple (Uploads view paths w) (orFail (openFile env file.localPath))
      (fun _ => Uploads view paths w) (fun _ => Uploads view paths w) := by
    refine orFail_triple ?_
    refine (keepsUploads (F := fun _ => True) fun start => openFile_unmoved.strengthen
      fun _ _ unmoved => ⟨unmoved, trivial⟩).strengthen fun r next holds => ?_
    cases r <;> exact holds.1
  refine Triple.bind opened fun _ => ?_
  refine Triple.bind (note_triple (Q := fun _ => Uploads view paths w)
    fun next before => before.note inside) fun _ => ?_
  refine Triple.bind (keepsUploads (F := fun _ => True) fun start =>
    readDisk_unmoved.strengthen fun _ _ holds => ⟨holds.1, trivial⟩) fun body => ?_
  cases body with
  | error error => exact Triple.throw fun _ holds => holds.1
  | ok bytes =>
      have other : ∀ (next : World ρ) path, path ∉ paths →
          view (env.engine.uploadFile file.remotePath bytes file.contentType next.remote).2 path =
            view next.remote path := by
        intro next path outside
        exact frame.uploadFile_other _ _ _ _ _ (by rintro rfl; exact outside inside)
      refine callRemote_triple ?_ ?_
      · exact fun next a before _ => before.1.called (other next)
      · exact fun next e before _ => before.1.called (other next)

theorem commitPlan_uploads {plan : PushBatchPlan}
    (inside : ∀ commit ∈ plan.commitFiles, commit.path ∈ paths) :
    Triple (Uploads view paths w) (commitPlan env plan) (fun _ => Uploads view paths w)
      (fun _ => Uploads view paths w) := by
  have own : OfUpload (ρ := ρ) paths (.committed (plan.commitFiles.map CommitFile.path)) := by
    intro path present
    obtain ⟨commit, listed, rfl⟩ := List.mem_map.mp present
    exact inside commit listed
  refine Triple.bind (note_triple (Q := fun _ => Uploads view paths w)
    fun next before => before.note own) fun _ => ?_
  have other : ∀ (next : World ρ) path, path ∉ paths →
      view (env.engine.blobCommit plan.commitFiles next.remote).2 path = view next.remote path :=
    fun next path outside => frame.blobCommit_other _ _ _ fun commit listed equal =>
      outside (equal ▸ inside commit listed)
  refine callRemote_triple ?_ ?_
  · exact fun next a before _ => before.called (other next)
  · exact fun next e before _ => before.called (other next)

theorem pushPlannedBatch_uploads {plan : PushBatchPlan}
    (inside : ∀ commit ∈ plan.commitFiles, commit.path ∈ paths) :
    Triple (Uploads view paths w) (pushPlannedBatch env config plan) (fun _ => Uploads view paths w)
      (fun _ => Uploads view paths w) :=
  Triple.bind (checkChunks_uploads frame) fun _ =>
    Triple.bind (uploadChunks_uploads frame) fun _ => commitPlan_uploads frame inside

end Frame

/-- The commit entries carry the paths of the files. -/
theorem planned_paths {files : List PendingPushFile} {commits : List CommitFile}
    (planned : List.Forall₂ (Planned env config) files commits) :
    commits.map CommitFile.path = files.map PendingPushFile.remotePath := by
  induction planned with
  | nil => rfl
  | cons first _ ih => simp [first.1, ih]

/-- Whatever its outcome, a push of files only concerns the paths of these files. -/
theorem pushBatchViaChunks_uploads (frame : EngineFrame env.engine view) {files : List PendingPushFile}
    {paths : List Text} (inside : ∀ file ∈ files, file.remotePath ∈ paths) :
    Triple (Uploads view paths w) (pushBatchViaChunks env config files)
      (fun _ => Uploads view paths w) (fun _ => Uploads view paths w) := by
  have direct : Triple (Uploads view paths w) (pushBatchViaDirectFilePut env files)
      (fun _ => Uploads view paths w) (fun _ => Uploads view paths w) :=
    Triple.forEach_keep _ files fun file listed => pushFileDirectly_uploads frame (inside file listed)
  refine Triple.ite (fun _ => Triple.ret fun _ before => before) fun _ => ?_
  refine Triple.ite (fun _ => direct) fun _ => ?_
  refine Triple.bind (keepsUploads fun start => planPushBatch_unmoved) fun outcome => ?_
  cases outcome with
  | error message => exact Triple.throw fun _ holds => holds.1
  | ok plan =>
      refine Triple.assume (fun _ holds => holds.2 plan rfl) fun known => ?_
      obtain ⟨commits, planned, perm⟩ := known
      refine Triple.weaken ?_ fun _ holds => holds.1
      refine Triple.ite (fun _ => direct) fun _ => pushPlannedBatch_uploads frame fun commit listed => ?_
      have path := List.mem_map_of_mem (f := CommitFile.path) (perm.mem_iff.mp listed)
      rw [planned_paths planned] at path
      obtain ⟨file, present, equal⟩ := List.mem_map.mp path
      exact equal ▸ inside file present

theorem chunkHash_injective {digest : Bytes → Text} (injective : Function.Injective digest)
    (hashPrefix : Text) : Function.Injective (chunkHash digest hashPrefix) :=
  fun _ _ equal => List.append_cancel_left (injective equal)

theorem eq_of_count_map {α β : Type} [BEq β] [LawfulBEq β] {f : α → β} {xs : List α} {b : β} {x y : α}
    (single : (xs.map f).count b ≤ 1) (left : x ∈ xs) (right : y ∈ xs) (fx : f x = b) (fy : f y = b) :
    x = y := by
  induction xs with
  | nil => cases left
  | cons z rest ih =>
      rw [List.map_cons, List.count_cons] at single
      have absent : f z = b → ∀ other ∈ rest, f other ≠ b := by
        intro here other inside equal
        have positive : 0 < (rest.map f).count b :=
          List.count_pos_iff.mpr (equal ▸ List.mem_map_of_mem inside)
        simp only [here, beq_self_eq_true, if_true] at single
        omega
      rcases List.mem_cons.mp left with rfl | inLeft
      · rcases List.mem_cons.mp right with rfl | inRight
        · rfl
        · exact absurd fy (absent fx y inRight)
      · rcases List.mem_cons.mp right with rfl | inRight
        · exact absurd fx (absent fy x inLeft)
        · exact ih (by omega) inLeft inRight

section Success

variable {hashPrefix : Text} (spec : EngineSpec env.digest hashPrefix env.engine view)
  (injective : Function.Injective env.digest) {disk : Tree} {r hash : Text}
include spec

/-- The file on disk is the content that the hash names. -/
def Genuine (env : Env ρ) (disk : Tree) (hash : Text) (file : PendingPushFile) : Prop :=
  file.contentHash = hash ∧ ∃ content, disk.read file.localPath = .ok content ∧ env.digest content = hash

theorem pushFileDirectly_holds {file : PendingPushFile} (genuine : Genuine env disk hash file) :
    Triple (fun w => w.disk = disk) (pushFileDirectly env file)
      (fun _ next => Holds env.digest (view next.remote) file.remotePath hash) (fun _ _ => True) := by
  obtain ⟨-, content, found, same⟩ := genuine
  refine Triple.bind (Q := fun _ next => next.disk = disk) (orFail_triple ?_) fun _ => ?_
  · refine readDisk_triple fun next before => ?_
    split
    · exact before
    · exact trivial
  refine Triple.bind (note_triple (Q := fun _ next => next.disk = disk) fun _ before => before) fun _ => ?_
  refine Triple.bind (Q := fun body next => body = .ok content ∨ ∃ error, body = .error error)
    (readDisk_triple fun next before => ?_) fun body => ?_
  · unfold Env.faulty
    split
    · exact Or.inr ⟨_, rfl⟩
    · exact Or.inl (by rw [before, found])
  · cases body with
    | error error => exact Triple.throw fun _ _ => trivial
    | ok bytes =>
        refine callRemote_triple (fun next a before returned => ?_) fun _ _ _ _ => trivial
        have equal : bytes = content := by
          rcases before with equal | ⟨error, equal⟩
          · exact Except.ok.inj equal
          · cases equal
        subst equal
        exact ⟨_, spec.uploadFile_ok _ _ _ _ returned, same⟩

theorem pushBatchViaDirectFilePut_holds {files : List PendingPushFile}
    (present : ∃ file ∈ files, file.remotePath = r)
    (genuine : ∀ file ∈ files, file.remotePath = r → Genuine env disk hash file) :
    Triple (fun w => w.disk = disk) (pushBatchViaDirectFilePut env files)
      (fun _ next => Holds env.digest (view next.remote) r hash) (fun _ _ => True) := by
  let waiting : List PendingPushFile → World ρ → Prop := fun rest w =>
    w.disk = disk ∧ ((∃ file ∈ rest, file.remotePath = r) ∨ Holds env.digest (view w.remote) r hash)
  have run : Triple (waiting files) (pushBatchViaDirectFilePut env files) (fun _ => waiting [])
      (fun _ _ => True) := by
    refine Triple.forEach waiting files fun file rest suffix => Triple.fix fun start before => ?_
    have alone := pushFileDirectly_uploads (w := start) spec.toEngineFrame
      (List.mem_singleton.mpr (rfl : file.remotePath = file.remotePath))
    have kept := alone.weaken (U := (· = start))
      fun next equal => by subst equal; exact Uploads.refl _
    by_cases own : file.remotePath = r
    · have inside : file ∈ files := suffix.subset (List.mem_cons_self ..)
      have pushed := (pushFileDirectly_holds spec (genuine file inside own)).weaken
        (U := (· = start)) fun next equal => by rw [equal]; exact before.1
      refine (kept.both pushed).conseq (fun _ equal => equal) (fun _ next holds => ?_)
        fun _ _ _ => trivial
      exact ⟨holds.1.disk.trans before.1, Or.inr (own ▸ holds.2)⟩
    · refine kept.conseq (fun _ equal => equal) (fun _ next uploads => ?_) fun _ _ _ => trivial
      refine ⟨uploads.disk.trans before.1, ?_⟩
      rcases before.2 with ⟨other, listed, equal⟩ | holds
      · rcases List.mem_cons.mp listed with rfl | later
        · exact absurd equal own
        · exact Or.inl ⟨other, later, equal⟩
      · exact Or.inr (holds.congr (uploads.other r (by simpa using Ne.symm own)))
  refine run.conseq (fun w equal => ⟨equal, Or.inl present⟩) (fun _ next holds => ?_)
    fun _ _ _ => trivial
  rcases holds.2 with ⟨file, none, -⟩ | holds
  · cases none
  · exact holds

include injective

theorem commitPlan_holds (same : config.chunkHashPrefix = hashPrefix) {files : List PendingPushFile}
    {plan : PushBatchPlan} {commits : List CommitFile}
    (planned : List.Forall₂ (Planned env config) files commits) (perm : plan.commitFiles.Perm commits)
    (present : ∃ file ∈ files, file.remotePath = r)
    (genuine : ∀ file ∈ files, file.remotePath = r → file.contentHash = hash)
    (single : (files.map PendingPushFile.remotePath).count r ≤ 1) :
    Triple (fun _ => True) (commitPlan env plan)
      (fun _ next => Holds env.digest (view next.remote) r hash) (fun _ _ => True) := by
  have once : (plan.commitFiles.map CommitFile.path).count r ≤ 1 := by
    rwa [(perm.map CommitFile.path).count_eq, planned_paths planned]
  have target : ∃ commit ∈ commits, ∃ file ∈ files, Planned env config file commit ∧
      file.remotePath = r := by
    clear genuine single once perm
    obtain ⟨file, inside, own⟩ := present
    induction planned with
    | nil => cases inside
    | @cons first commit rest more head _ ih =>
        rcases List.mem_cons.mp inside with rfl | later
        · exact ⟨commit, List.mem_cons_self .., file, List.mem_cons_self .., head, own⟩
        · obtain ⟨other, listed, owner, among, holds⟩ := ih later
          exact ⟨other, List.mem_cons_of_mem _ listed, owner, List.mem_cons_of_mem _ among, holds⟩
  obtain ⟨commit, listed, file, inside, ⟨path, pieces, chunks, content, -⟩, own⟩ := target
  refine Triple.bind (note_triple (Q := fun _ _ => True) fun _ _ => trivial) fun _ => ?_
  refine callRemote_triple (fun next a _ returned => ?_) fun _ _ _ _ => trivial
  have unique : ∀ other ∈ plan.commitFiles, other.path = commit.path → other = commit :=
    fun other among equal => eq_of_count_map once among (perm.mem_iff.mpr listed)
      (equal.trans (path.trans own)) (path.trans own)
  obtain ⟨stored, hashes, held⟩ := spec.blobCommit_ok _ _ commit returned (perm.mem_iff.mpr listed) unique
  rw [chunks, same] at hashes
  have equal := List.map_injective_iff.mpr (chunkHash_injective injective hashPrefix) hashes
  rw [equal, path, own] at held
  exact ⟨_, held, content.trans (genuine file inside own)⟩

/-- After a successful push the remote holds the pushed content at the path of the file. -/
theorem pushBatchViaChunks_holds (same : config.chunkHashPrefix = hashPrefix)
    {files : List PendingPushFile} (present : ∃ file ∈ files, file.remotePath = r)
    (genuine : ∀ file ∈ files, file.remotePath = r → Genuine env disk hash file)
    (single : (files.map PendingPushFile.remotePath).count r ≤ 1) :
    Triple (fun w => w.disk = disk) (pushBatchViaChunks env config files)
      (fun _ next => Holds env.digest (view next.remote) r hash) (fun _ _ => True) := by
  have direct := pushBatchViaDirectFilePut_holds spec present genuine
  refine Triple.ite (fun empty => ?_) fun _ => Triple.ite (fun _ => direct) fun _ => ?_
  · obtain ⟨file, inside, -⟩ := present
    rw [empty] at inside
    cases inside
  · refine Triple.fix fun start before => ?_
    refine Triple.bind (planPushBatch_unmoved.weaken fun _ => .of_eq) fun outcome => ?_
    cases outcome with
    | error message => exact Triple.throw fun _ _ => trivial
    | ok plan =>
        refine Triple.assume (fun _ holds => holds.2 plan rfl) fun known => ?_
        obtain ⟨commits, planned, perm⟩ := known
        refine Triple.ite (fun _ => direct.weaken fun _ holds => holds.1.disk.trans before) fun _ => ?_
        have commit := commitPlan_holds spec injective same planned perm present
          (fun file inside own => (genuine file inside own).1) single
        refine Triple.bind (Q := fun _ _ => True) ?_ fun _ => Triple.bind (Q := fun _ _ => True) ?_
          fun _ => commit
        · exact fun w _ => by
            rcases checkChunks env plan w with ⟨result, next⟩
            cases result <;> exact trivial
        · exact fun w _ => by
            rcases uploadChunks env config plan _ w with ⟨result, next⟩
            cases result <;> exact trivial

end Success

end AeordbSync

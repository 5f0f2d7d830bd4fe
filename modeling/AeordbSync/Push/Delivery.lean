import AeordbSync.Library.Runs
import AeordbSync.Push.TransferRules

namespace AeordbSync
open Characters OsPath FileSystem Effect Runs

/-- A commit leaves at each path that it names one of the files that it names there. -/
structure EngineStores {ρ : Type} (digest : Bytes → Text) (hashPrefix : Text) (engine : Engine ρ)
    (view : ρ → Text → Option RemoteEntry) : Prop extends EngineSpec digest hashPrefix engine view where
  blobCommit_one : ∀ files s path, (engine.blobCommit files s).1 = .ok () → (∃ file ∈ files, file.path = path) →
    ∃ file ∈ files, file.path = path ∧ ∃ pieces : List Bytes,
      pieces.map (chunkHash digest hashPrefix) = file.chunks ∧
        view (engine.blobCommit files s).2 path = some (.file pieces.flatten)

/-- A transfer and the engine that answers it. The stream is the body of the direct upload in progress. The
direct uploads that have been sent are kept with their bodies, the latest first. -/
structure BatchDelivery (ρ : Type) where
  transfer : Transfer
  remote : ρ
  stream : Option (List Bytes)
  delivered : List (PendingPushFile × Bytes)

/-- A step works on this side alone or waits for the engine. What a stream reads is decided by whoever changes
the local files meanwhile. -/
inductive DeliveryAction where
  | work (action : TransferAction)
  | check
  | send (flight : Nat)
  | commit
  | open (result : Except IoError Unit)
  | piece (result : Except IoError Bytes)
  | put
  | finish

/-- The step needs no answer of the engine. -/
def TransferAction.isLocal : TransferAction → Bool
  | .answered _ | .sent _ _ | .committed _ | .streamed _ => false
  | _ => true

variable {ρ : Type} (env : Env ρ) (config : BlobConfig)

namespace BatchDelivery

def start (files : List PendingPushFile) (remote : ρ) : BatchDelivery ρ := ⟨.start env config files, remote, none, []⟩

/-- The transfer goes on with the answer. -/
def resume (files : List PendingPushFile) (d : BatchDelivery ρ) (action : TransferAction) : Option (BatchDelivery ρ) :=
  (d.transfer.step env config files action).map fun transfer => { d with transfer := transfer }

def step (files : List PendingPushFile) (d : BatchDelivery ρ) : DeliveryAction → Option (BatchDelivery ρ)
  | .work action => if action.isLocal then d.resume env config files action else none
  | .check => match d.transfer.phase with
      | .checking _ (group :: _) =>
          let (outcome, remote) := env.engine.blobCheckOnce group d.remote
          { d with remote := remote }.resume env config files (.answered outcome)
      | _ => none
  | .send index => match d.transfer.phase with
      | .uploading _ _ flights => match flights[index]? with
          | some ⟨chunk, .sending bytes⟩ =>
              let (outcome, remote) := env.engine.uploadChunk chunk.hash bytes d.remote
              { d with remote := remote }.resume env config files (.sent index outcome)
          | _ => none
      | _ => none
  | .commit => match d.transfer.phase with
      | .uploading plan [] [] =>
          let (outcome, remote) := env.engine.blobCommit plan.commitFiles d.remote
          { d with remote := remote }.resume env config files (.committed outcome)
      | _ => none
  | .open result => match d.transfer.phase, d.stream with
      | .streaming (_ :: _), none => match result with
          | .ok () => some { d with stream := some [] }
          | .error error => d.resume env config files (.streamed (.error (.io error)))
      | _, _ => none
  | .piece result => match d.transfer.phase, d.stream with
      | .streaming (file :: _), some pieces => match result with
          | .ok bytes => some { d with stream := some (pieces ++ [bytes]) }
          | .error error => d.resume env config files (.streamed (.error (.upstreamProtocol
              (text "malformed request to engine for " ++ file.remotePath ++ text ": " ++ error.text))))
      | _, _ => none
  | .put => match d.transfer.phase, d.stream with
      | .streaming (file :: _), some pieces =>
          let (outcome, remote) := env.engine.uploadFile file.remotePath pieces.flatten file.contentType d.remote
          { d with
            remote := remote
            stream := none
            delivered := (file, pieces.flatten) :: d.delivered }.resume env config files (.streamed outcome)
      | _, _ => none
  | .finish => match d.transfer.phase with
      | .streaming [] => d.resume env config files (.streamed (.ok ()))
      | _ => none

/-- The batch has been pushed. -/
def Succeeded (d : BatchDelivery ρ) : Prop := d.transfer.phase = .returned (.ok ())

end BatchDelivery

/-- The remote holds a content with the hash and the size of the record. -/
def Describes (view : Text → Option RemoteEntry) (record : FileSyncMeta) : Prop :=
  ∃ content, view record.path = some (.file content) ∧ env.digest content = record.contentHash ∧
    content.length = record.size

/-- The files of the batch that share a path share their content, and what the latest direct upload to a path has
read still has the recorded hash and size. -/
structure Unaltered (files : List PendingPushFile) (d : BatchDelivery ρ) : Prop where
  shared : ∀ file ∈ files, ∀ other ∈ files, other.remotePath = file.remotePath →
    other.contentHash = file.contentHash ∧ other.fileSize = file.fileSize
  kept : ∀ path file bytes, d.delivered.find? (fun sent => sent.1.remotePath = path) = some (file, bytes) →
    env.digest bytes = file.contentHash ∧ bytes.length = file.fileSize

variable {env : Env ρ} {config : BlobConfig}

/-- The files of a part are those that its worker has planned and those that remain. -/
def Planner.Serves (env : Env ρ) (config : BlobConfig) (planner : Planner) (files : List PendingPushFile) : Prop :=
  ∃ finished, files = finished ++ planner.files ∧
    List.Forall₂ (Planned env config) finished planner.plan.commitFiles

namespace Planner

variable {planner next : Planner} {files : List PendingPushFile}

theorem start_serves (part : Nat × List PendingPushFile) : (start part).Serves env config part.2 := ⟨[], rfl, .nil⟩

theorem opened_serves {outcome : Except IoError Unit} (serves : planner.Serves env config files)
    (taken : planner.opened env outcome = some next) : next.Serves env config files := by
  unfold opened at taken
  split at taken
  next rest ahead none =>
    split at taken
    · cases taken
      exact serves
    · cases taken
      exact serves
  · cases taken

theorem read_serves {outcome : Except IoError Bytes} (serves : planner.Serves env config files)
    (taken : planner.read env config outcome = some next) : next.Serves env config files := by
  unfold read at taken
  split at taken
  next file rest pieces _ ahead _ =>
    split at taken
    · cases taken
      exact serves
    · split at taken
      · cases taken
        unfold endFile
        dsimp only
        split
        · exact serves
        next same =>
          rw [not_or, not_not, not_not] at same
          obtain ⟨finished, all, planned⟩ := serves
          refine ⟨finished ++ [file], ?_, ?_⟩
          · rw [all, ahead, List.append_assoc]
            rfl
          · rw [addPlannedFile_commitFiles]
            exact List.rel_append planned (.cons ⟨rfl, pieces, rfl, same.2, same.1⟩ .nil)
      · split at taken
        · cases taken
          exact serves
        · cases taken
  · cases taken

/-- A worker that has returned a plan has planned all its files. -/
theorem serves_result {plan : PartialPushBatchPlan} (serves : planner.Serves env config files)
    (returned : planner.result = some (.ok plan)) : List.Forall₂ (Planned env config) files plan.commitFiles := by
  obtain ⟨finished, all, planned⟩ := serves
  unfold result at returned
  split at returned
  · cases returned
  next ahead =>
    cases returned
    rw [all, ahead, List.append_nil]
    exact planned
  · cases returned

end Planner

theorem forall₂_set {α β : Type} {R : α → β → Prop} {xs : List α} {ys : List β} {index : Nat} {x after : α}
    (related : List.Forall₂ R xs ys) (found : xs[index]? = some x) (kept : ∀ y, R x y → R after y) :
    List.Forall₂ R (xs.set index after) ys := by
  induction related generalizing index with
  | nil => exact .nil
  | cons first rest ih =>
      cases index with
      | zero =>
          obtain rfl := Option.some.inj found
          exact .cons (kept _ first) rest
      | succ index => exact .cons first (ih found)

theorem forall₂_of_mapM {α β γ : Type} {f : α → Option (Except γ β)} {xs : List α} {ys : List β}
    (mapped : xs.mapM f = some (ys.map Except.ok)) : List.Forall₂ (fun x y => f x = some (.ok y)) xs ys := by
  induction xs generalizing ys with
  | nil =>
      simp only [List.mapM_nil, Option.pure_def, Option.some.injEq] at mapped
      rw [List.map_eq_nil_iff.mp mapped.symm]
      exact .nil
  | cons x rest ih =>
      simp only [List.mapM_cons, Option.bind_eq_bind, Option.pure_def] at mapped
      obtain ⟨first, here, later⟩ := Option.bind_eq_some_iff.mp mapped
      obtain ⟨others, tail, same⟩ := Option.bind_eq_some_iff.mp later
      cases ys with
      | nil => cases same
      | cons y more =>
          cases same
          exact .cons here (ih tail)

/-- The plan holds one commit entry for each file. -/
def Covers (env : Env ρ) (config : BlobConfig) (files : List PendingPushFile) (plan : PushBatchPlan) : Prop :=
  ∃ commits, List.Forall₂ (Planned env config) files commits ∧ plan.commitFiles.Perm commits

theorem parts_files (env : Env ρ) (files : List PendingPushFile) :
    (Transfer.parts env files).flatMap Prod.snd = files := by
  unfold Transfer.parts
  dsimp only
  split
  · exact List.flatMap_singleton ..
  · exact workerRanges_files _ files

theorem joined_covers {planners : List Planner} {plans : List PartialPushBatchPlan} {files : List PendingPushFile}
    (serving : List.Forall₂ (fun planner part => planner.Serves env config part.2) planners (Transfer.parts env files))
    (ended : planners.mapM Planner.result = some (plans.map Except.ok)) :
    Covers env config files (mergePartialPushBatchPlans plans) := by
  have planned : List.Forall₂ (fun part plan => List.Forall₂ (Planned env config) part.2 plan.commitFiles)
      (Transfer.parts env files) plans := by
    have returned := forall₂_of_mapM ended
    clear ended
    generalize Transfer.parts env files = parts at serving
    induction serving generalizing plans with
    | nil =>
        cases returned
        exact .nil
    | cons first _ ih =>
        cases returned with
        | cons here later => exact .cons (Planner.serves_result first here) (ih later)
  have whole : List.Forall₂ (Planned env config) ((Transfer.parts env files).flatMap Prod.snd)
      (plans.flatMap PartialPushBatchPlan.commitFiles) := List.rel_flatMap planned fun part plan same => same
  rw [parts_files] at whole
  exact ⟨_, whole, mergePartialPushBatchPlans_commitFiles plans⟩

/-- The remote holds a content with the recorded hash and size of the file. -/
def Stored (env : Env ρ) (view : Text → Option RemoteEntry) (file : PendingPushFile) : Prop :=
  ∃ content, view file.remotePath = some (.file content) ∧ env.digest content = file.contentHash ∧
    content.length = file.fileSize

theorem describes_syncedMeta {view : Text → Option RemoteEntry} {file : PendingPushFile} (time : Int) :
    Describes env view (syncedMeta file time) ↔ Stored env view file := Iff.rfl

/-- At each path of the batch the remote holds one of its files. -/
def Committed (env : Env ρ) (view : Text → Option RemoteEntry) (files : List PendingPushFile) : Prop :=
  ∀ file ∈ files, ∃ other ∈ files, other.remotePath = file.remotePath ∧ Stored env view other

section Commit

variable {view : ρ → Text → Option RemoteEntry} {files : List PendingPushFile}

theorem exists_of_planned {commits : List CommitFile} (planned : List.Forall₂ (Planned env config) files commits)
    {commit : CommitFile} (inside : commit ∈ commits) : ∃ file ∈ files, Planned env config file commit := by
  induction planned with
  | nil => cases inside
  | cons first _ ih =>
      rcases List.mem_cons.mp inside with rfl | later
      · exact ⟨_, List.mem_cons_self .., first⟩
      · obtain ⟨file, listed, known⟩ := ih later
        exact ⟨file, List.mem_cons_of_mem _ listed, known⟩

theorem committed_of_commit (stores : EngineStores env.digest config.chunkHashPrefix env.engine view)
    (injective : Function.Injective env.digest) {plan : PushBatchPlan} (covers : Covers env config files plan)
    {remote : ρ} (returned : (env.engine.blobCommit plan.commitFiles remote).1 = .ok ()) :
    Committed env (view (env.engine.blobCommit plan.commitFiles remote).2) files := by
  obtain ⟨commits, planned, perm⟩ := covers
  intro file inside
  have named : ∃ commit ∈ plan.commitFiles, commit.path = file.remotePath := by
    have listed : file.remotePath ∈ commits.map CommitFile.path := by
      rw [planned_paths planned]
      exact List.mem_map_of_mem inside
    obtain ⟨commit, among, path⟩ := List.mem_map.mp listed
    exact ⟨commit, perm.mem_iff.mpr among, path⟩
  obtain ⟨commit, among, path, pieces, hashes, held⟩ := stores.blobCommit_one _ _ _ returned named
  obtain ⟨other, listed, own, parts, chunks, content, size⟩ := exists_of_planned planned (perm.mem_iff.mp among)
  have same : pieces = parts :=
    List.map_injective_iff.mpr (chunkHash_injective injective config.chunkHashPrefix) (hashes.trans chunks)
  subst same
  refine ⟨other, listed, own.symm.trans path, pieces.flatten, ?_, content, size⟩
  rw [← own, path]
  exact held

end Commit

namespace BatchDelivery

/-- At each path that has been uploaded to the remote holds the latest body. -/
def Latest (view : ρ → Text → Option RemoteEntry) (d : BatchDelivery ρ) : Prop :=
  ∀ path sent, d.delivered.find? (fun sent => sent.1.remotePath = path) = some sent →
    view d.remote path = some (.file sent.2)

def Sound (env : Env ρ) (config : BlobConfig) (view : ρ → Text → Option RemoteEntry) (files : List PendingPushFile)
    (d : BatchDelivery ρ) : Prop :=
  match d.transfer.phase with
  | .planning planners => d.delivered = [] ∧
      List.Forall₂ (fun planner part => planner.Serves env config part.2) planners (Transfer.parts env files)
  | .checking plan _ => d.delivered = [] ∧ Covers env config files plan
  | .uploading plan _ _ => d.delivered = [] ∧ Covers env config files plan
  | .streaming rest => (d.delivered.map Prod.fst).reverse ++ rest = files ∧ d.Latest view
  | .returned (.ok ()) => (d.delivered = [] ∧ Committed env (view d.remote) files) ∨
      ((d.delivered.map Prod.fst).reverse = files ∧ d.Latest view)
  | .returned (.error _) => True

variable {view : ρ → Text → Option RemoteEntry} {files : List PendingPushFile} {d next : BatchDelivery ρ}

theorem start_sound (files : List PendingPushFile) (remote : ρ) :
    (start env config files remote).Sound env config view files := by
  unfold start Transfer.start Transfer.startPhase
  split
  next empty =>
    refine Or.inr ⟨empty.symm, fun _ _ found => ?_⟩
    cases found
  · split
    · exact ⟨rfl, fun _ _ found => by cases found⟩
    · refine ⟨rfl, ?_⟩
      show List.Forall₂ _ ((Transfer.parts env files).map Planner.start) _
      rw [List.forall₂_map_left_iff, List.forall₂_same]
      exact fun part _ => Planner.start_serves part

theorem resume_eq_some {action : TransferAction} (taken : d.resume env config files action = some next) :
    ∃ transfer, d.transfer.step env config files action = some transfer ∧ next = { d with transfer := transfer } := by
  obtain ⟨transfer, moved, equal⟩ := Option.map_eq_some_iff.mp taken
  exact ⟨transfer, moved, equal.symm⟩

/-- The workers are joined when all of them have returned. -/
theorem joined_sound {planners : List Planner} {results : List (Except Text PartialPushBatchPlan)}
    (sound : d.Sound env config view files) (phase : d.transfer.phase = .planning planners)
    (ended : planners.mapM Planner.result = some results) :
    Sound env config view files { d with
      transfer := { d.transfer with phase := Transfer.planned files (joinPlans results) } } := by
  unfold Sound at sound
  rw [phase] at sound
  obtain ⟨transfer, remote, stream, delivered⟩ := d
  obtain ⟨none, serving⟩ := sound
  obtain rfl : delivered = [] := none
  cases joined : joinPlans results with
  | error message => exact trivial
  | ok plans =>
      rw [joinPlans_ok joined] at ended
      have covers := joined_covers serving ended
      unfold Transfer.planned
      dsimp only
      by_cases large : blobCommitBodyBytes (mergePartialPushBatchPlans plans).commitFiles >
          blobCommitSafeRequestBodyBytes
      · rw [if_pos large]
        exact ⟨rfl, fun _ _ found => by cases found⟩
      · rw [if_neg large]
        exact ⟨rfl, covers⟩

/-- What this side does alone keeps what is known. -/
theorem work_sound {action : TransferAction} {transfer : Transfer} (isLocal : action.isLocal = true)
    (sound : d.Sound env config view files) (moved : d.transfer.step env config files action = some transfer) :
    Sound env config view files { d with transfer := transfer } := by
  cases action with
  | opened index outcome =>
      simp only [Transfer.step] at moved
      split at moved
      next planners phase =>
        obtain ⟨planner, found, rest⟩ := Option.bind_eq_some_iff.mp moved
        obtain ⟨after, opened, equal⟩ := Option.bind_eq_some_iff.mp rest
        cases equal
        unfold Sound at sound
        rw [phase] at sound
        exact ⟨sound.1, forall₂_set sound.2 found fun part serves => Planner.opened_serves serves opened⟩
      · cases moved
  | read index outcome =>
      simp only [Transfer.step] at moved
      split at moved
      next planners phase =>
        obtain ⟨planner, found, rest⟩ := Option.bind_eq_some_iff.mp moved
        obtain ⟨after, read, equal⟩ := Option.bind_eq_some_iff.mp rest
        cases equal
        unfold Sound at sound
        rw [phase] at sound
        exact ⟨sound.1, forall₂_set sound.2 found fun part serves => Planner.read_serves serves read⟩
      · cases moved
  | joined =>
      simp only [Transfer.step] at moved
      split at moved
      next planners phase =>
        obtain ⟨results, ended, equal⟩ := Option.bind_eq_some_iff.mp moved
        cases equal
        exact joined_sound sound phase ended
      · cases moved
  | arranged chunks =>
      simp only [Transfer.step] at moved
      split at moved
      next plan phase =>
        split at moved
        · cases moved
          unfold Sound at sound
          rwa [phase] at sound
        · cases moved
      · cases moved
  | started =>
      simp only [Transfer.step] at moved
      split at moved
      next plan chunk waiting flights phase =>
        split at moved
        · cases moved
          unfold Sound at sound
          rwa [phase] at sound
        · cases moved
      · cases moved
  | chunkRead index outcome =>
      simp only [Transfer.step] at moved
      split at moved
      next plan waiting flights phase =>
        obtain ⟨flight, found, rest⟩ := Option.bind_eq_some_iff.mp moved
        obtain ⟨after, read, equal⟩ := Option.bind_eq_some_iff.mp rest
        cases equal
        unfold Sound at sound
        rwa [phase] at sound
      · cases moved
  | yielded index =>
      simp only [Transfer.step] at moved
      split at moved
      next plan waiting flights phase =>
        unfold Sound at sound
        rw [phase] at sound
        unfold Transfer.yielded at moved
        split at moved
        · cases moved
          exact trivial
        · cases moved
          exact sound
        · cases moved
      · cases moved
  | answered | sent | committed | streamed => cases isLocal

/-- The engine has said which chunks it needs. -/
theorem check_sound {plan : PushBatchPlan} {group : List Text} {rest : List (List Text)} {remote : ρ}
    {outcome : Except ClientError BlobCheckResponse} {transfer : Transfer}
    (sound : d.Sound env config view files) (phase : d.transfer.phase = .checking plan (group :: rest))
    (moved : d.transfer.step env config files (.answered outcome) = some transfer) :
    Sound env config view files { d with transfer := transfer, remote := remote } := by
  unfold Sound at sound
  rw [phase] at sound
  simp only [Transfer.step, phase] at moved
  cases outcome with
  | error error =>
      cases moved
      exact trivial
  | ok response =>
      cases moved
      exact sound

theorem send_sound {plan : PushBatchPlan} {waiting : List PendingChunkRef} {flights : List Flight} {index : Nat}
    {remote : ρ} {outcome : Except ClientError Unit} {transfer : Transfer}
    (sound : d.Sound env config view files) (phase : d.transfer.phase = .uploading plan waiting flights)
    (moved : d.transfer.step env config files (.sent index outcome) = some transfer) :
    Sound env config view files { d with transfer := transfer, remote := remote } := by
  unfold Sound at sound
  rw [phase] at sound
  simp only [Transfer.step, phase] at moved
  obtain ⟨flight, found, rest⟩ := Option.bind_eq_some_iff.mp moved
  obtain ⟨after, sent, equal⟩ := Option.bind_eq_some_iff.mp rest
  cases equal
  exact sound

theorem commit_sound (stores : EngineStores env.digest config.chunkHashPrefix env.engine view)
    (injective : Function.Injective env.digest) {plan : PushBatchPlan} {transfer : Transfer}
    (sound : d.Sound env config view files) (phase : d.transfer.phase = .uploading plan [] [])
    (moved : d.transfer.step env config files
      (.committed (env.engine.blobCommit plan.commitFiles d.remote).1) = some transfer) :
    Sound env config view files { d with
      transfer := transfer
      remote := (env.engine.blobCommit plan.commitFiles d.remote).2 } := by
  unfold Sound at sound
  rw [phase] at sound
  simp only [Transfer.step, phase] at moved
  cases moved
  cases returned : (env.engine.blobCommit plan.commitFiles d.remote).1 with
  | error error =>
      unfold Sound
      exact trivial
  | ok _ =>
      unfold Sound
      exact Or.inl ⟨sound.1, committed_of_commit stores injective sound.2 returned⟩

/-- A direct upload leaves its body at its path and nothing else elsewhere. -/
theorem latest_put (spec : EngineSpec env.digest config.chunkHashPrefix env.engine view)
    (latest : d.Latest view) {file : PendingPushFile} {bytes : Bytes} {transfer : Transfer}
    (returned : (env.engine.uploadFile file.remotePath bytes file.contentType d.remote).1 = .ok ()) :
    Latest view ⟨transfer, (env.engine.uploadFile file.remotePath bytes file.contentType d.remote).2, none,
      (file, bytes) :: d.delivered⟩ := by
  intro path sent found
  show view (env.engine.uploadFile file.remotePath bytes file.contentType d.remote).2 path = _
  rw [List.find?_cons] at found
  split at found
  next same =>
    cases found
    rw [decide_eq_true_eq] at same
    subst same
    exact spec.uploadFile_ok _ _ _ _ returned
  next other =>
    rw [decide_eq_false_iff_not] at other
    rw [spec.uploadFile_other _ _ _ _ _ (Ne.symm other)]
    exact latest path sent found

theorem put_sound (spec : EngineSpec env.digest config.chunkHashPrefix env.engine view) {file : PendingPushFile}
    {rest : List PendingPushFile} {bytes : Bytes} {transfer : Transfer}
    (sound : d.Sound env config view files) (phase : d.transfer.phase = .streaming (file :: rest))
    (moved : d.transfer.step env config files
      (.streamed (env.engine.uploadFile file.remotePath bytes file.contentType d.remote).1) = some transfer) :
    Sound env config view files
      ⟨transfer, (env.engine.uploadFile file.remotePath bytes file.contentType d.remote).2, none,
        (file, bytes) :: d.delivered⟩ := by
  unfold Sound at sound
  rw [phase] at sound
  simp only [Transfer.step, phase] at moved
  cases returned : (env.engine.uploadFile file.remotePath bytes file.contentType d.remote).1 with
  | error error =>
      rw [returned] at moved
      cases moved
      exact trivial
  | ok _ =>
      rw [returned] at moved
      cases moved
      refine ⟨?_, latest_put spec sound.2 returned⟩
      rw [List.map_cons, List.reverse_cons, List.append_assoc]
      exact sound.1

theorem Sound.step (stores : EngineStores env.digest config.chunkHashPrefix env.engine view)
    (injective : Function.Injective env.digest) {action : DeliveryAction} (sound : d.Sound env config view files)
    (taken : d.step env config files action = some next) : next.Sound env config view files := by
  cases action with
  | work action =>
      simp only [BatchDelivery.step] at taken
      split at taken
      next isLocal =>
        obtain ⟨transfer, moved, rfl⟩ := resume_eq_some taken
        exact work_sound isLocal sound moved
      · cases taken
  | check =>
      simp only [BatchDelivery.step] at taken
      split at taken
      next plan group rest phase =>
        obtain ⟨transfer, moved, rfl⟩ := resume_eq_some taken
        exact check_sound (d := d) sound phase moved
      · cases taken
  | send index =>
      simp only [BatchDelivery.step] at taken
      split at taken
      next plan waiting flights phase =>
        split at taken
        · obtain ⟨transfer, moved, rfl⟩ := resume_eq_some taken
          exact send_sound (d := d) sound phase moved
        · cases taken
      · cases taken
  | commit =>
      simp only [BatchDelivery.step] at taken
      split at taken
      next plan phase =>
        obtain ⟨transfer, moved, rfl⟩ := resume_eq_some taken
        exact commit_sound stores injective sound phase moved
      · cases taken
  | «open» result =>
      simp only [BatchDelivery.step] at taken
      split at taken
      next file rest phase closed =>
        split at taken
        · cases taken
          exact sound
        · obtain ⟨transfer, moved, rfl⟩ := resume_eq_some taken
          simp only [Transfer.step, phase] at moved
          cases moved
          exact trivial
      · cases taken
  | piece result =>
      simp only [BatchDelivery.step] at taken
      split at taken
      next file rest pieces phase opened =>
        split at taken
        · cases taken
          exact sound
        · obtain ⟨transfer, moved, rfl⟩ := resume_eq_some taken
          simp only [Transfer.step, phase] at moved
          cases moved
          exact trivial
      · cases taken
  | put =>
      simp only [BatchDelivery.step] at taken
      split at taken
      next file rest pieces phase opened =>
        obtain ⟨transfer, moved, rfl⟩ := resume_eq_some taken
        exact put_sound stores.toEngineSpec sound phase moved
      · cases taken
  | finish =>
      simp only [BatchDelivery.step] at taken
      split at taken
      next phase =>
        obtain ⟨transfer, moved, rfl⟩ := resume_eq_some taken
        simp only [Transfer.step, phase] at moved
        cases moved
        unfold Sound at sound
        rw [phase] at sound
        obtain ⟨all, latest⟩ := sound
        rw [List.append_nil] at all
        exact Or.inr ⟨all, latest⟩
      · cases taken

theorem sound_of_run (stores : EngineStores env.digest config.chunkHashPrefix env.engine view)
    (injective : Function.Injective env.digest) {remote : ρ} {actions : List DeliveryAction}
    (run : Runs.Run (step env config files) (fun _ _ => True) (start env config files remote) actions d) :
    d.Sound env config view files :=
  run.invariant (fun _ _ _ sound _ taken => sound.step stores injective taken) (start_sound files remote)

end BatchDelivery

section Outcome

variable {view : Text → Option RemoteEntry} {file other : PendingPushFile}

/-- One path holds one content. -/
theorem Stored.unique (first : Stored env view file) (second : Stored env view other)
    (same : other.remotePath = file.remotePath) :
    other.contentHash = file.contentHash ∧ other.fileSize = file.fileSize := by
  obtain ⟨content, held, hash, size⟩ := first
  obtain ⟨bytes, found, digest, length⟩ := second
  rw [same, held] at found
  cases found
  exact ⟨digest.symm.trans hash, length.symm.trans size⟩

theorem Stored.congr (stored : Stored env view other) (path : other.remotePath = file.remotePath)
    (hash : other.contentHash = file.contentHash) (size : other.fileSize = file.fileSize) : Stored env view file := by
  unfold Stored at stored ⊢
  rwa [path, hash, size] at stored

end Outcome

namespace BatchDelivery

variable {view : ρ → Text → Option RemoteEntry} {files : List PendingPushFile} {d : BatchDelivery ρ}

theorem stored_of_committed (none : d.delivered = []) (committed : Committed env (view d.remote) files) :
    (∀ file ∈ files, Stored env (view d.remote) file) ↔ Unaltered env files d := by
  constructor
  · intro stored
    refine ⟨fun file inside other listed same => (stored file inside).unique (stored other listed) same, ?_⟩
    intro path file bytes found
    rw [none] at found
    cases found
  · intro unchanged file inside
    obtain ⟨other, listed, same, stored⟩ := committed file inside
    obtain ⟨hash, size⟩ := unchanged.shared file inside other listed same
    exact stored.congr same hash size

theorem stored_of_latest (all : (d.delivered.map Prod.fst).reverse = files) (latest : d.Latest view) :
    (∀ file ∈ files, Stored env (view d.remote) file) ↔ Unaltered env files d := by
  have listed : ∀ file, file ∈ files ↔ ∃ bytes, (file, bytes) ∈ d.delivered := by
    intro file
    rw [← all, List.mem_reverse, List.mem_map]
    constructor
    · rintro ⟨⟨_, bytes⟩, inside, rfl⟩
      exact ⟨bytes, inside⟩
    · rintro ⟨bytes, inside⟩
      exact ⟨_, inside, rfl⟩
  constructor
  · intro stored
    refine ⟨fun file inside other among same => (stored file inside).unique (stored other among) same, ?_⟩
    intro path file bytes found
    have own := List.find?_some found
    rw [decide_eq_true_eq] at own
    subst own
    obtain ⟨content, held, hash, size⟩ := stored file ((listed file).mpr ⟨bytes, List.mem_of_find?_eq_some found⟩)
    rw [latest _ _ found] at held
    cases held
    exact ⟨hash, size⟩
  · intro unchanged file inside
    obtain ⟨bytes, sent⟩ := (listed file).mp inside
    have some : (d.delivered.find? fun sent => sent.1.remotePath = file.remotePath).isSome :=
      List.find?_isSome.mpr ⟨_, sent, decide_eq_true rfl⟩
    obtain ⟨⟨other, body⟩, found⟩ := Option.isSome_iff_exists.mp some
    have same := List.find?_some found
    rw [decide_eq_true_eq] at same
    have among := (listed other).mpr ⟨body, List.mem_of_find?_eq_some found⟩
    obtain ⟨digest, length⟩ := unchanged.kept _ _ _ found
    obtain ⟨hash, size⟩ := unchanged.shared file inside other among same
    have held := latest _ _ found
    rw [← same] at held
    exact Stored.congr ⟨body, held, digest, length⟩ same hash size

end BatchDelivery

theorem Shelf.commit_one (source : Shelf) (files : List CommitFile) (shelf : Shelf) {path : Text}
    (named : ∃ file ∈ files, file.path = path) : ∃ file ∈ files, file.path = path ∧
      (files.foldl (commitFile source) shelf).entries path = (source.assemble file.chunks).map RemoteEntry.file := by
  induction files generalizing shelf with
  | nil =>
      obtain ⟨file, none, -⟩ := named
      cases none
  | cons first rest ih =>
      rw [List.foldl_cons]
      by_cases later : ∃ other ∈ rest, other.path = path
      · obtain ⟨file, inside, own, held⟩ := ih _ later
        exact ⟨file, List.mem_cons_of_mem _ inside, own, held⟩
      · obtain ⟨file, inside, own⟩ := named
        rcases List.mem_cons.mp inside with rfl | among
        · refine ⟨file, List.mem_cons_self .., own, ?_⟩
          rw [commit_other _ _ _ _ fun other listed same => later ⟨other, listed, same⟩]
          exact if_pos own.symm
        · exact absurd ⟨file, among, own⟩ later

theorem Shelf.stores : EngineStores plainDigest plainConfig.chunkHashPrefix shelfEnv.engine Shelf.entries := by
  refine ⟨Shelf.spec plainConfig rfl, fun files s path returned named => ?_⟩
  have chunk : chunkHash plainDigest plainConfig.chunkHashPrefix = plainDigest := rfl
  show ∃ file ∈ files, _ ∧ ∃ pieces : List Bytes, _ ∧ ((Shelf.engine plainConfig).blobCommit files s).2.entries path = _
  change ((Shelf.engine plainConfig).blobCommit files s).1 = _ at returned
  simp only [Shelf.engine] at returned ⊢
  split at returned
  next known =>
    rw [if_pos known]
    obtain ⟨file, inside, own, held⟩ := Shelf.commit_one s files s named
    obtain ⟨content, assembled⟩ := Option.isSome_iff_exists.mp (known file inside)
    obtain ⟨pieces, hashes, equal⟩ := Shelf.assemble_pieces assembled
    refine ⟨file, inside, own, pieces, by rw [chunk, hashes], ?_⟩
    rw [held, assembled, equal]
    rfl
  next => cases returned

def largeContent : Bytes := List.replicate (2 ^ 21) 0

/-- With chunks of four bytes its manifest is above the safe size. -/
def largeFile : PendingPushFile :=
  ⟨ofText (osText (text "/home/a")), text "/docs/a", plainDigest largeContent, 2 ^ 21, 0, none⟩

namespace BatchDelivery

/-- A file whose manifest is too large is uploaded with what its stream reads. -/
theorem direct_run {file : PendingPushFile}
    (large : estimatedBlobCommitBodyBytes [file] plainConfig > blobCommitSafeRequestBodyBytes) (bytes : Bytes) :
    ∃ actions, ∃ d : BatchDelivery Shelf,
      Runs.Run (step shelfEnv plainConfig [file]) (fun _ _ => True)
        (start shelfEnv plainConfig [file] (Shelf.holding [])) actions d ∧
      d.Succeeded ∧ d.remote.entries file.remotePath = some (.file bytes) ∧ d.delivered = [(file, bytes)] := by
  have begun : start shelfEnv plainConfig [file] (Shelf.holding []) =
      ⟨⟨.streaming [file], ⟨[], []⟩, [], [], []⟩, Shelf.holding [], none, []⟩ := by
    unfold start Transfer.start Transfer.startPhase
    rw [if_neg (List.cons_ne_nil _ _), if_pos large]
  rw [begun]
  have whole : [bytes].flatten = bytes := List.append_nil bytes
  refine ⟨[.open (.ok ()), .piece (.ok bytes), .put, .finish], _,
    .cons rfl trivial (.cons rfl trivial (.cons rfl trivial (.cons rfl trivial (.nil _)))), rfl, ?_, ?_⟩
  · show (if file.remotePath = file.remotePath then some (RemoteEntry.file [bytes].flatten) else none) = _
    rw [if_pos rfl, whole]
  · show [(file, [bytes].flatten)] = _
    rw [whole]

/-- Each chunk takes 67 bytes of the manifest. -/
theorem large_of_chunks {config : BlobConfig} {file : PendingPushFile} {chunks : Nat}
    (count : estimatedChunkCount file.fileSize config.chunkSize = chunks)
    (many : blobCommitSafeRequestBodyBytes < chunks * 67) :
    estimatedBlobCommitBodyBytes [file] config > blobCommitSafeRequestBodyBytes := by
  have some : chunks ≠ 0 := by
    rintro rfl
    cases many
  unfold estimatedBlobCommitBodyBytes estimatedBlobCommitFileBytes
  rw [List.map_singleton, List.sum_singleton, count]
  dsimp only
  rw [if_neg some]
  omega

theorem largeFile_large : estimatedBlobCommitBodyBytes [largeFile] plainConfig > blobCommitSafeRequestBodyBytes := by
  have count : estimatedChunkCount (2 ^ 21) plainConfig.chunkSize = 2 ^ 19 := by decide
  exact large_of_chunks count (by decide)

end BatchDelivery

end AeordbSync

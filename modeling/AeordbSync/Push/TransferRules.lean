import Mathlib.Data.List.Perm.Basic
import AeordbSync.Push.Transfer
import AeordbSync.Reference

namespace AeordbSync
open Characters OsPath FileSystem Effect

variable {ρ : Type} {env : Env ρ} {config : BlobConfig}

/-- The commit entry names the chunks of one content, with its hash and its length. -/
def Assembled (env : Env ρ) (config : BlobConfig) (commit : CommitFile) : Prop :=
  ∃ pieces : List Bytes, commit.chunks = pieces.map (chunkHash env.digest config.chunkHashPrefix) ∧
    commit.contentHash = some (env.digest pieces.flatten) ∧ commit.size = some pieces.flatten.length

/-- Each hash stands once in the plan, with the place of its chunk. -/
structure SoundChunks (uniqueHashes : List Text) (uploadChunks : List PendingChunkRef) : Prop where
  listed : uploadChunks.map PendingChunkRef.hash = uniqueHashes
  nodup : uniqueHashes.Nodup

namespace SoundChunks

variable {uniqueHashes : List Text} {uploadChunks : List PendingChunkRef}

theorem nil : SoundChunks [] [] := ⟨rfl, List.nodup_nil⟩

theorem any_iff (sound : SoundChunks uniqueHashes uploadChunks) (hash : Text) :
    (uploadChunks.any fun ref => decide (ref.hash = hash)) = true ↔ hash ∈ uniqueHashes := by
  rw [← sound.listed]
  simp

theorem add (sound : SoundChunks uniqueHashes uploadChunks) {ref : PendingChunkRef}
    (fresh : ref.hash ∉ uniqueHashes) : SoundChunks (uniqueHashes ++ [ref.hash]) (uploadChunks ++ [ref]) := by
  refine ⟨by rw [List.map_append, sound.listed, List.map_singleton], ?_⟩
  exact List.nodup_append.mpr ⟨sound.nodup, List.nodup_singleton _, fun a inside b single equal =>
    fresh (List.mem_singleton.mp single ▸ equal ▸ inside)⟩

end SoundChunks

theorem addChunkRef_sound {plan : PartialPushBatchPlan} (sound : SoundChunks plan.uniqueHashes plan.uploadChunks)
    (ref : PendingChunkRef) : SoundChunks (addChunkRef plan ref).uniqueHashes (addChunkRef plan ref).uploadChunks ∧
      ∀ hash, hash ∈ plan.uniqueHashes ∨ hash = ref.hash → hash ∈ (addChunkRef plan ref).uniqueHashes := by
  unfold addChunkRef
  split
  next present =>
    refine ⟨sound, fun hash either => either.elim id ?_⟩
    rintro rfl
    exact (sound.any_iff _).mp present
  next absent =>
    refine ⟨sound.add fun inside => absent ((sound.any_iff _).mpr inside), fun hash either => ?_⟩
    exact List.mem_append.mpr (either.imp_right List.mem_singleton.mpr)

theorem addChunkRefs_sound {plan : PartialPushBatchPlan} (sound : SoundChunks plan.uniqueHashes plan.uploadChunks)
    (refs : List PendingChunkRef) :
    SoundChunks (refs.foldl addChunkRef plan).uniqueHashes (refs.foldl addChunkRef plan).uploadChunks ∧
      ∀ hash, hash ∈ plan.uniqueHashes ∨ hash ∈ refs.map PendingChunkRef.hash →
        hash ∈ (refs.foldl addChunkRef plan).uniqueHashes := by
  induction refs generalizing plan with
  | nil => exact ⟨sound, fun hash either => either.elim id fun impossible => absurd impossible List.not_mem_nil⟩
  | cons ref rest ih =>
      obtain ⟨next, kept⟩ := addChunkRef_sound sound ref
      refine ⟨(ih next).1, fun hash either => (ih next).2 hash ?_⟩
      rcases either with before | added
      · exact Or.inl (kept hash (Or.inl before))
      · rcases List.mem_cons.mp added with first | later
        · exact Or.inl (kept hash (Or.inr first))
        · exact Or.inr later

/-- Every commit entry is assembled from chunks that the plan lists. -/
structure SoundPlan (env : Env ρ) (config : BlobConfig) (commits : List CommitFile) (uniqueHashes : List Text)
    (uploadChunks : List PendingChunkRef) : Prop extends SoundChunks uniqueHashes uploadChunks where
  assembled : ∀ commit ∈ commits, Assembled env config commit
  covered : ∀ commit ∈ commits, ∀ hash ∈ commit.chunks, hash ∈ uniqueHashes

def PartialPushBatchPlan.Sound (env : Env ρ) (config : BlobConfig) (plan : PartialPushBatchPlan) : Prop :=
  SoundPlan env config plan.commitFiles plan.uniqueHashes plan.uploadChunks

def PushBatchPlan.Sound (env : Env ρ) (config : BlobConfig) (plan : PushBatchPlan) : Prop :=
  SoundPlan env config plan.commitFiles plan.uniqueHashes plan.uploadChunks

theorem addPlannedFile_sound {plan : PartialPushBatchPlan} (sound : plan.Sound env config) (index : Nat)
    {file : PendingPushFile} {pieces : List Bytes} (length : pieces.flatten.length = file.fileSize)
    (content : env.digest pieces.flatten = file.contentHash) :
    (addPlannedFile plan index file ⟨pieces.map (chunkHash env.digest config.chunkHashPrefix),
      chunkRefsFrom env config file.localPath 0 pieces⟩).Sound env config := by
  obtain ⟨chunks, kept⟩ := addChunkRefs_sound sound.toSoundChunks
    (chunkRefsFrom env config file.localPath 0 pieces)
  rw [chunkRefsFrom_hashes] at kept
  have commits := addPlannedFile_commitFiles plan index file
    ⟨pieces.map (chunkHash env.digest config.chunkHashPrefix), chunkRefsFrom env config file.localPath 0 pieces⟩
  refine ⟨chunks, fun commit inside => ?_, fun commit inside hash among => kept hash ?_⟩
  · rw [commits, List.mem_append, List.mem_singleton] at inside
    rcases inside with before | rfl
    · exact sound.assembled commit before
    · exact ⟨pieces, rfl, congrArg some content.symm, congrArg some length.symm⟩
  · rw [commits, List.mem_append, List.mem_singleton] at inside
    rcases inside with before | rfl
    · exact Or.inl (sound.covered commit before hash among)
    · exact Or.inr among

theorem mergeChunk_sound {partialPlan : PartialPushBatchPlan} {merged : PushBatchPlan} {hash : Text}
    (source : SoundChunks partialPlan.uniqueHashes partialPlan.uploadChunks) (known : hash ∈ partialPlan.uniqueHashes)
    (sound : SoundChunks merged.uniqueHashes merged.uploadChunks) :
    SoundChunks (mergeChunk partialPlan merged hash).uniqueHashes (mergeChunk partialPlan merged hash).uploadChunks ∧
      ∀ other, other ∈ merged.uniqueHashes ∨ other = hash → other ∈ (mergeChunk partialPlan merged hash).uniqueHashes := by
  unfold mergeChunk
  split
  next present =>
    refine ⟨sound, fun other either => either.elim id ?_⟩
    rintro rfl
    exact (sound.any_iff _).mp present
  next absent =>
    have found : ∃ ref, (partialPlan.uploadChunks.find? fun ref => ref.hash = hash) = some ref ∧ ref.hash = hash := by
      rw [← source.listed] at known
      obtain ⟨ref, inside, equal⟩ := List.mem_map.mp known
      cases first : partialPlan.uploadChunks.find? fun ref => ref.hash = hash with
      | none => exact absurd equal (by simpa using List.find?_eq_none.mp first ref inside)
      | some other => exact ⟨other, rfl, by simpa using List.find?_some first⟩
    obtain ⟨ref, first, rfl⟩ := found
    rw [first]
    refine ⟨sound.add fun inside => absent ((sound.any_iff _).mpr inside), fun other either => ?_⟩
    exact List.mem_append.mpr (either.imp_right List.mem_singleton.mpr)

theorem mergeChunks_sound {partialPlan : PartialPushBatchPlan} {merged : PushBatchPlan} {hashes : List Text}
    (source : SoundChunks partialPlan.uniqueHashes partialPlan.uploadChunks)
    (known : ∀ hash ∈ hashes, hash ∈ partialPlan.uniqueHashes)
    (sound : SoundChunks merged.uniqueHashes merged.uploadChunks) :
    SoundChunks (hashes.foldl (mergeChunk partialPlan) merged).uniqueHashes
        (hashes.foldl (mergeChunk partialPlan) merged).uploadChunks ∧
      ∀ other, other ∈ merged.uniqueHashes ∨ other ∈ hashes →
        other ∈ (hashes.foldl (mergeChunk partialPlan) merged).uniqueHashes := by
  induction hashes generalizing merged with
  | nil => exact ⟨sound, fun other either => either.elim id fun impossible => absurd impossible List.not_mem_nil⟩
  | cons hash rest ih =>
      obtain ⟨next, kept⟩ := mergeChunk_sound source (known hash (List.mem_cons_self ..)) sound
      have later := ih (fun other inside => known other (List.mem_cons_of_mem _ inside)) next
      refine ⟨later.1, fun other either => later.2 other ?_⟩
      rcases either with before | added
      · exact Or.inl (kept other (Or.inl before))
      · rcases List.mem_cons.mp added with first | more
        · exact Or.inl (kept other (Or.inr first))
        · exact Or.inr more

/-- The plan of the batch lists every chunk that some worker has planned, and none of them twice. -/
theorem mergePartialPushBatchPlans_sound {plans : List PartialPushBatchPlan}
    (sound : ∀ plan ∈ plans, plan.Sound env config) : (mergePartialPushBatchPlans plans).Sound env config := by
  let merge := fun (merged : PushBatchPlan) (plan : PartialPushBatchPlan) =>
    plan.uniqueHashes.foldl (mergeChunk plan) merged
  have run : ∀ (rest : List PartialPushBatchPlan) (merged : PushBatchPlan), (∀ plan ∈ rest, plan ∈ plans) →
      SoundChunks merged.uniqueHashes merged.uploadChunks →
      SoundChunks (rest.foldl merge merged).uniqueHashes (rest.foldl merge merged).uploadChunks ∧
        ∀ hash, hash ∈ merged.uniqueHashes ∨ (∃ plan ∈ rest, hash ∈ plan.uniqueHashes) →
          hash ∈ (rest.foldl merge merged).uniqueHashes := by
    intro rest
    induction rest with
    | nil =>
        intro merged _ before
        refine ⟨before, fun hash either => either.elim id ?_⟩
        rintro ⟨_, impossible, _⟩
        cases impossible
    | cons plan others ih =>
        intro merged inside before
        obtain ⟨next, kept⟩ := mergeChunks_sound (sound plan (inside plan (List.mem_cons_self ..))).toSoundChunks
          (fun _ among => among) before
        have later := ih (merge merged plan) (fun other among => inside other (List.mem_cons_of_mem _ among)) next
        refine ⟨later.1, fun hash either => later.2 hash ?_⟩
        rcases either with earlier | ⟨other, among, listed⟩
        · exact Or.inl (kept hash (Or.inl earlier))
        · rcases List.mem_cons.mp among with rfl | more
          · exact Or.inl (kept hash (Or.inr listed))
          · exact Or.inr ⟨other, more, listed⟩
  obtain ⟨chunks, kept⟩ := run plans ⟨[], [], []⟩ (fun _ inside => inside) SoundChunks.nil
  have origin : ∀ commit ∈ (mergePartialPushBatchPlans plans).commitFiles, ∃ plan ∈ plans, commit ∈ plan.commitFiles :=
    fun commit inside => List.mem_flatMap.mp ((mergePartialPushBatchPlans_commitFiles plans).mem_iff.mp inside)
  refine ⟨chunks, fun commit inside => ?_, fun commit inside hash among => kept hash (Or.inr ?_)⟩
  · obtain ⟨plan, known, listed⟩ := origin commit inside
    exact (sound plan known).assembled commit listed
  · obtain ⟨plan, known, listed⟩ := origin commit inside
    exact ⟨plan, known, (sound plan known).covered commit listed hash among⟩

theorem chunksFrom_length {α : Type} {size : Nat} {current xs : List α} (room : current.length < size) :
    ∀ group ∈ chunksFrom size current xs, group.length ≤ size := by
  induction xs generalizing current with
  | nil =>
      unfold chunksFrom
      split
      · simp
      · simpa using room.le
  | cons x rest ih =>
      unfold chunksFrom
      split
      next full =>
        intro group inside
        rcases List.mem_cons.mp inside with rfl | later
        · simp [full]
        · exact ih (by show 0 < size; omega) group later
      next =>
        refine ih ?_
        rw [List.length_append, List.length_singleton]
        omega

theorem Planner.opened_plan {planner next : Planner} {outcome : Except IoError Unit}
    (taken : planner.opened env outcome = some next) : next.plan = planner.plan := by
  unfold Planner.opened at taken
  split at taken
  · split at taken <;> cases taken <;> rfl
  · cases taken

/-- A file enters the plan only if what was read of it is what was recorded. -/
theorem Planner.endFile_sound (planner : Planner) (sound : planner.plan.Sound env config) (file : PendingPushFile)
    (rest : List PendingPushFile) (pieces : List Bytes) :
    (planner.endFile env config file rest pieces).plan.Sound env config := by
  unfold Planner.endFile
  dsimp only
  split
  · exact sound
  next same =>
    rw [not_or, not_not, not_not] at same
    exact addPlannedFile_sound sound planner.index same.1 same.2

theorem Planner.read_sound {planner next : Planner} {outcome : Except IoError Bytes}
    (sound : planner.plan.Sound env config) (taken : planner.read env config outcome = some next) :
    next.plan.Sound env config := by
  unfold Planner.read at taken
  split at taken
  next file rest pieces _ _ _ =>
    split at taken
    · cases taken
      exact sound
    · split at taken
      · cases taken
        exact planner.endFile_sound sound file rest pieces
      · split at taken
        · cases taken
          exact sound
        · cases taken
  · cases taken

theorem joinPlans_ok {results : List (Except Text PartialPushBatchPlan)} {plans : List PartialPushBatchPlan}
    (joined : joinPlans results = .ok plans) : results = plans.map Except.ok := by
  induction results generalizing plans with
  | nil =>
      cases joined
      rfl
  | cons first rest ih =>
      cases first with
      | error message => cases joined
      | ok plan =>
          unfold joinPlans at joined
          split at joined
          · cases joined
          next others equal =>
            cases joined
            rw [ih equal, List.map_cons]

/-- The bytes that are sent have the hash of their chunk. -/
def Flight.Lawful (env : Env ρ) (config : BlobConfig) (flight : Flight) : Prop :=
  match flight.stage with
  | .reading => True
  | .sending bytes => chunkHash env.digest config.chunkHashPrefix bytes = flight.chunk.hash
  | .ended (.ok bytes) => chunkHash env.digest config.chunkHashPrefix bytes = flight.chunk.hash
  | .ended (.error _) => True

theorem Flight.chunkRead_lawful {flight next : Flight} {outcome : Except IoError Bytes}
    (taken : flight.chunkRead env config outcome = some next) : next.chunk = flight.chunk ∧ next.Lawful env config := by
  unfold Flight.chunkRead at taken
  split at taken
  · cases taken
    exact ⟨rfl, trivial⟩
  · split at taken
    · cases taken
    · simp only at taken
      split at taken
      · cases taken
        exact ⟨rfl, trivial⟩
      next same =>
        cases taken
        exact ⟨rfl, not_not.mp same⟩
  · cases taken

theorem Flight.sent_chunk {flight next : Flight} {outcome : Except ClientError Unit}
    (taken : flight.sent outcome = some next) : next.chunk = flight.chunk := by
  unfold Flight.sent at taken
  split at taken <;> cases taken <;> rfl

theorem Flight.sent_lawful {flight next : Flight} {outcome : Except ClientError Unit}
    (lawful : flight.Lawful env config) (taken : flight.sent outcome = some next) : next.Lawful env config := by
  unfold Flight.sent at taken
  split at taken
  next bytes sending =>
    cases taken
    unfold Flight.Lawful at lawful
    rw [sending] at lawful
    exact lawful
  · cases taken
    exact trivial
  · cases taken

theorem exists_of_mapM {α β : Type} {f : α → Option β} {xs : List α} {ys : List β} (mapped : xs.mapM f = some ys)
    {y : β} (inside : y ∈ ys) : ∃ x ∈ xs, f x = some y := by
  induction xs generalizing ys with
  | nil =>
      cases mapped
      cases inside
  | cons x rest ih =>
      simp only [List.mapM_cons, Option.bind_eq_bind, Option.pure_def] at mapped
      obtain ⟨first, here, later⟩ := Option.bind_eq_some_iff.mp mapped
      obtain ⟨others, tail, same⟩ := Option.bind_eq_some_iff.mp later
      cases same
      rcases List.mem_cons.mp inside with rfl | more
      · exact ⟨x, List.mem_cons_self .., here⟩
      · obtain ⟨other, among, equal⟩ := ih tail more
        exact ⟨other, List.mem_cons_of_mem _ among, equal⟩

theorem mem_of_mapM {α β : Type} {f : α → Option β} {xs : List α} {ys : List β} (mapped : xs.mapM f = some ys)
    {x : α} (inside : x ∈ xs) : ∃ y ∈ ys, f x = some y := by
  induction xs generalizing ys with
  | nil => cases inside
  | cons first rest ih =>
      simp only [List.mapM_cons, Option.bind_eq_bind, Option.pure_def] at mapped
      obtain ⟨head, here, later⟩ := Option.bind_eq_some_iff.mp mapped
      obtain ⟨others, tail, same⟩ := Option.bind_eq_some_iff.mp later
      cases same
      rcases List.mem_cons.mp inside with rfl | more
      · exact ⟨head, List.mem_cons_self, here⟩
      · obtain ⟨y, among, equal⟩ := ih tail more
        exact ⟨y, List.mem_cons_of_mem _ among, equal⟩

namespace Transfer

/-- Every hash of the plan has been asked for or will be, and the answers so far are a partition. -/
structure Checked (env : Env ρ) (config : BlobConfig) (t : Transfer) (plan : PushBatchPlan)
    (rest : List (List Text)) : Prop where
  sound : plan.Sound env config
  asked : (t.asked ++ rest).flatten = plan.uniqueHashes
  groups : ∀ group ∈ t.asked ++ rest, group.length ≤ blobCheckMaxHashesPerRequest
  answered : (t.response.available ++ t.response.needed).Perm t.asked.flatten

theorem Checked.congr {t other : Transfer} {plan : PushBatchPlan} {rest : List (List Text)}
    (checked : Checked env config t plan rest) (asked : other.asked = t.asked)
    (response : other.response = t.response) : Checked env config other plan rest := by
  obtain ⟨sound, all, groups, answered⟩ := checked
  rw [← asked] at all groups answered
  rw [← response] at answered
  exact ⟨sound, all, groups, answered⟩

/-- Every needed hash has been uploaded once or is still to be. -/
structure Uploading (env : Env ρ) (config : BlobConfig) (t : Transfer) (plan : PushBatchPlan)
    (later : List Text) : Prop extends Checked env config t plan [] where
  needed : (t.uploaded.map Prod.fst ++ later).Perm t.response.needed
  genuine : ∀ entry ∈ t.uploaded, chunkHash env.digest config.chunkHashPrefix entry.2 = entry.1

def remaining (waiting : List PendingChunkRef) (flights : List Flight) : List Text :=
  flights.map (·.chunk.hash) ++ waiting.map PendingChunkRef.hash

def Lawful (env : Env ρ) (config : BlobConfig) (t : Transfer) : Prop :=
  match t.phase with
  | .planning planners => t.response = ⟨[], []⟩ ∧ t.asked = [] ∧ t.uploaded = [] ∧ t.commits = [] ∧
      ∀ planner ∈ planners, planner.plan.Sound env config
  | .checking plan groups => t.uploaded = [] ∧ t.commits = [] ∧ Checked env config t plan groups
  | .uploading plan waiting flights => t.commits = [] ∧ Uploading env config t plan (remaining waiting flights) ∧
      ∀ flight ∈ flights, flight.Lawful env config
  | .streaming _ => t.commits = []
  | .returned _ => t.commits = [] ∨ ∃ plan, t.commits = [plan.commitFiles] ∧ Uploading env config t plan []

theorem start_lawful (files : List PendingPushFile) : (start env config files).Lawful env config := by
  unfold start startPhase
  split
  · exact Or.inl rfl
  · split
    · exact rfl
    · refine ⟨rfl, rfl, rfl, rfl, fun planner inside => ?_⟩
      obtain ⟨part, -, rfl⟩ := List.mem_map.mp inside
      exact ⟨SoundChunks.nil, by rintro _ ⟨⟩, by rintro _ ⟨⟩⟩

variable {t next : Transfer} {files : List PendingPushFile}

theorem planning_lawful {planners : List Planner} {index : Nat} {planner after : Planner}
    (lawful : t.Lawful env config) (phase : t.phase = .planning planners) (found : planners[index]? = some planner)
    (kept : planner.plan.Sound env config → after.plan.Sound env config) :
    Lawful env config { t with phase := .planning (planners.set index after) } := by
  unfold Lawful at lawful
  rw [phase] at lawful
  obtain ⟨response, asked, uploaded, commits, sound⟩ := lawful
  refine ⟨response, asked, uploaded, commits, fun other inside => ?_⟩
  rcases List.mem_or_eq_of_mem_set inside with before | rfl
  · exact sound other before
  · exact kept (sound planner (List.mem_of_getElem? found))

/-- All plans are sound when the workers are joined. -/
theorem joined_lawful {planners : List Planner} {results : List (Except Text PartialPushBatchPlan)}
    (lawful : t.Lawful env config) (phase : t.phase = .planning planners)
    (ended : planners.mapM Planner.result = some results) :
    Lawful env config { t with phase := planned files (joinPlans results) } := by
  unfold Lawful at lawful
  rw [phase] at lawful
  obtain ⟨response, asked, uploaded, commits, sound⟩ := lawful
  cases joined : joinPlans results with
  | error message => exact Or.inl commits
  | ok plans =>
      have origin : ∀ plan ∈ plans, plan.Sound env config := by
        intro plan inside
        have listed : Except.ok plan ∈ results := by
          rw [joinPlans_ok joined]
          exact List.mem_map_of_mem inside
        obtain ⟨planner, known, result⟩ := exists_of_mapM ended listed
        unfold Planner.result at result
        split at result <;> cases result
        exact sound planner known
      have merged := mergePartialPushBatchPlans_sound origin
      simp only [planned]
      split
      · exact commits
      · refine ⟨uploaded, commits, merged, ?_, ?_, ?_⟩
        · simp only [asked, List.nil_append]
          exact chunksFrom_flatten ..
        · simp only [asked, List.nil_append]
          exact chunksFrom_length (by decide)
        · simp only [asked, response]
          exact List.Perm.refl _

theorem answered_lawful {plan : PushBatchPlan} {group : List Text} {rest : List (List Text)}
    {response : BlobCheckResponse} (lawful : t.Lawful env config) (phase : t.phase = .checking plan (group :: rest))
    (partition : (response.available ++ response.needed).Perm group) :
    Lawful env config { t with
      phase := .checking plan rest
      response := ⟨t.response.available ++ response.available, t.response.needed ++ response.needed⟩
      asked := t.asked ++ [group] } := by
  unfold Lawful at lawful
  rw [phase] at lawful
  obtain ⟨uploaded, commits, sound, asked, groups, answered⟩ := lawful
  refine ⟨uploaded, commits, sound, ?_, ?_, ?_⟩
  · simpa using asked
  · simpa using groups
  · have both := answered.append partition
    have shuffled : ((t.response.available ++ response.available) ++ (t.response.needed ++ response.needed)).Perm
        ((t.response.available ++ t.response.needed) ++ (response.available ++ response.needed)) := by
      simp only [List.append_assoc]
      refine List.Perm.append_left _ ?_
      rw [← List.append_assoc, ← List.append_assoc]
      exact List.Perm.append_right _ List.perm_append_comm
    simpa using shuffled.trans both

/-- The chunks that are sent are those that the engine needs. -/
theorem arranged_lawful {plan : PushBatchPlan} {chunks : List PendingChunkRef} (lawful : t.Lawful env config)
    (phase : t.phase = .checking plan [])
    (perm : chunks.Perm (plan.uploadChunks.filter fun chunk => chunk.hash ∈ t.response.needed)) :
    Lawful env config { t with phase := .uploading plan chunks [] } := by
  unfold Lawful at lawful
  rw [phase] at lawful
  obtain ⟨uploaded, commits, checked⟩ := lawful
  refine ⟨commits, ⟨checked.congr rfl rfl, ?_, ?_⟩, by rintro _ ⟨⟩⟩
  · have hashes := perm.map PendingChunkRef.hash
    have picked : (plan.uploadChunks.filter fun chunk => chunk.hash ∈ t.response.needed).map PendingChunkRef.hash =
        plan.uniqueHashes.filter fun hash => hash ∈ t.response.needed := by
      rw [← checked.sound.listed, List.filter_map]
      rfl
    have answered := checked.answered
    rw [show t.asked.flatten = plan.uniqueHashes by simpa using checked.asked] at answered
    have nodup := answered.nodup_iff.mpr checked.sound.nodup
    have equal : (plan.uniqueHashes.filter fun hash => hash ∈ t.response.needed).Perm t.response.needed := by
      refine (List.perm_ext_iff_of_nodup (checked.sound.nodup.filter _) (List.nodup_append.mp nodup).2.1).mpr ?_
      intro hash
      simp only [List.mem_filter, decide_eq_true_eq, and_iff_right_iff_imp]
      exact fun needed => answered.mem_iff.mp (List.mem_append_right _ needed)
    rw [picked] at hashes
    simpa [remaining, uploaded] using hashes.trans equal
  · rw [uploaded]
    rintro _ ⟨⟩

theorem started_lawful {plan : PushBatchPlan} {chunk : PendingChunkRef} {waiting : List PendingChunkRef}
    {flights : List Flight} (lawful : t.Lawful env config)
    (phase : t.phase = .uploading plan (chunk :: waiting) flights) :
    Lawful env config { t with phase := .uploading plan waiting (flights ++ [⟨chunk, .reading⟩]) } := by
  unfold Lawful at lawful
  rw [phase] at lawful
  obtain ⟨commits, ⟨checked, needed, genuine⟩, stages⟩ := lawful
  refine ⟨commits, ⟨checked.congr rfl rfl, ?_, genuine⟩, fun flight inside => ?_⟩
  · simpa [remaining] using needed
  · rcases List.mem_append.mp inside with before | new
    · exact stages flight before
    · rw [List.mem_singleton.mp new]
      exact trivial

theorem flight_lawful {plan : PushBatchPlan} {waiting : List PendingChunkRef} {flights : List Flight} {index : Nat}
    {flight after : Flight} (lawful : t.Lawful env config) (phase : t.phase = .uploading plan waiting flights)
    (found : flights[index]? = some flight) (chunk : after.chunk = flight.chunk)
    (stage : flight.Lawful env config → after.Lawful env config) :
    Lawful env config { t with phase := .uploading plan waiting (flights.set index after) } := by
  unfold Lawful at lawful
  rw [phase] at lawful
  obtain ⟨commits, ⟨checked, needed, genuine⟩, stages⟩ := lawful
  refine ⟨commits, ⟨checked.congr rfl rfl, ?_, genuine⟩, fun other inside => ?_⟩
  · have same : (flights.set index after).map (·.chunk.hash) = flights.map (·.chunk.hash) := by
      obtain ⟨bound, rfl⟩ := List.getElem?_eq_some_iff.mp found
      rw [List.map_set, chunk]
      have known : index < (flights.map (·.chunk.hash)).length := by simpa using bound
      have self := List.set_getElem_self known
      simpa using self
    rw [remaining, same]
    exact needed
  · rcases List.mem_or_eq_of_mem_set inside with before | rfl
    · exact stages other before
    · exact stage (stages flight (List.mem_of_getElem? found))

theorem yielded_lawful {plan : PushBatchPlan} {waiting : List PendingChunkRef} {flights : List Flight} {index : Nat}
    (lawful : t.Lawful env config) (phase : t.phase = .uploading plan waiting flights)
    (taken : t.yielded plan waiting flights index = some next) : next.Lawful env config := by
  unfold Lawful at lawful
  rw [phase] at lawful
  obtain ⟨commits, ⟨checked, needed, genuine⟩, stages⟩ := lawful
  unfold yielded at taken
  split at taken
  · cases taken
    exact Or.inl commits
  next chunk bytes found =>
    cases taken
    have same := stages _ (List.mem_of_getElem? found)
    refine ⟨commits, ⟨checked.congr rfl rfl, ?_, ?_⟩, ?_⟩
    · obtain ⟨bound, first⟩ := List.getElem?_eq_some_iff.mp found
      have moved := (List.getElem_cons_eraseIdx_perm bound).map (·.chunk.hash)
      rw [first, List.map_cons] at moved
      have all := ((moved.append_right (waiting.map PendingChunkRef.hash)).append_left (t.uploaded.map Prod.fst)).trans needed
      simpa [remaining] using all
    · intro entry inside
      rcases List.mem_append.mp inside with before | new
      · exact genuine entry before
      · rw [List.mem_singleton.mp new]
        exact same
    · exact fun flight inside => stages flight ((List.eraseIdx_sublist ..).subset inside)
  · cases taken

theorem committed_lawful {plan : PushBatchPlan} (lawful : t.Lawful env config) (phase : t.phase = .uploading plan [] [])
    (outcome : Except ClientError Unit) : Lawful env config { t with
      phase := .returned outcome
      commits := t.commits ++ [plan.commitFiles] } := by
  unfold Lawful at lawful
  rw [phase] at lawful
  obtain ⟨commits, ⟨checked, needed, genuine⟩, -⟩ := lawful
  refine Or.inr ⟨plan, by simp [commits], checked.congr rfl rfl, ?_, genuine⟩
  simpa [remaining] using needed

theorem Lawful.step {action : TransferAction} (lawful : t.Lawful env config) (answers : t.Answers action)
    (taken : t.step env config files action = some next) : next.Lawful env config := by
  cases action with
  | opened index outcome =>
      simp only [Transfer.step] at taken
      split at taken
      next planners phase =>
        obtain ⟨planner, found, rest⟩ := Option.bind_eq_some_iff.mp taken
        obtain ⟨after, opened, equal⟩ := Option.bind_eq_some_iff.mp rest
        cases equal
        exact planning_lawful lawful phase found fun sound => planner.opened_plan opened ▸ sound
      · cases taken
  | read index outcome =>
      simp only [Transfer.step] at taken
      split at taken
      next planners phase =>
        obtain ⟨planner, found, rest⟩ := Option.bind_eq_some_iff.mp taken
        obtain ⟨after, read, equal⟩ := Option.bind_eq_some_iff.mp rest
        cases equal
        exact planning_lawful lawful phase found fun sound => planner.read_sound sound read
      · cases taken
  | joined =>
      simp only [Transfer.step] at taken
      split at taken
      next planners phase =>
        obtain ⟨results, ended, equal⟩ := Option.bind_eq_some_iff.mp taken
        cases equal
        exact joined_lawful lawful phase ended
      · cases taken
  | answered outcome =>
      simp only [Transfer.step] at taken
      split at taken
      next plan group rest phase =>
        cases outcome with
        | error error =>
            cases taken
            unfold Lawful at lawful
            rw [phase] at lawful
            exact Or.inl lawful.2.1
        | ok response =>
            cases taken
            exact answered_lawful lawful phase (answers plan group rest response phase rfl)
      · cases taken
  | arranged chunks =>
      simp only [Transfer.step] at taken
      split at taken
      next plan phase =>
        split at taken
        next perm =>
          cases taken
          exact arranged_lawful lawful phase perm
        · cases taken
      · cases taken
  | started =>
      simp only [Transfer.step] at taken
      split at taken
      next plan chunk waiting flights phase =>
        split at taken
        · cases taken
          exact started_lawful lawful phase
        · cases taken
      · cases taken
  | chunkRead index outcome =>
      simp only [Transfer.step] at taken
      split at taken
      next plan waiting flights phase =>
        obtain ⟨flight, found, rest⟩ := Option.bind_eq_some_iff.mp taken
        obtain ⟨after, read, equal⟩ := Option.bind_eq_some_iff.mp rest
        cases equal
        have kept := Flight.chunkRead_lawful read
        exact flight_lawful lawful phase found kept.1 fun _ => kept.2
      · cases taken
  | sent index outcome =>
      simp only [Transfer.step] at taken
      split at taken
      next plan waiting flights phase =>
        obtain ⟨flight, found, rest⟩ := Option.bind_eq_some_iff.mp taken
        obtain ⟨after, sent, equal⟩ := Option.bind_eq_some_iff.mp rest
        cases equal
        exact flight_lawful lawful phase found (Flight.sent_chunk sent) fun stage => Flight.sent_lawful stage sent
      · cases taken
  | yielded index =>
      simp only [Transfer.step] at taken
      split at taken
      next plan waiting flights phase => exact yielded_lawful lawful phase taken
      · cases taken
  | committed outcome =>
      simp only [Transfer.step] at taken
      split at taken
      next plan phase =>
        cases taken
        exact committed_lawful lawful phase outcome
      · cases taken
  | streamed outcome =>
      simp only [Transfer.step] at taken
      have none : ∀ rest, t.phase = .streaming rest → t.commits = [] := by
        intro rest phase
        unfold Lawful at lawful
        rwa [phase] at lawful
      split at taken
      next phase =>
        cases taken
        exact Or.inl (none _ phase)
      next phase =>
        cases taken
        exact Or.inl (none _ phase)
      next phase =>
        cases taken
        exact none _ phase
      · cases taken

theorem Reached.lawful (reached : Reached env config files t) : t.Lawful env config := by
  induction reached with
  | start => exact start_lawful files
  | step _ answers taken ih => exact ih.step answers taken

/-- Where a commit has been sent, it was of the plan whose chunks have all been checked and uploaded. -/
theorem Lawful.sent (lawful : t.Lawful env config) {manifest : List CommitFile} (sent : manifest ∈ t.commits) :
    ∃ plan, manifest = plan.commitFiles ∧ Uploading env config t plan [] := by
  have never : t.commits ≠ [] := List.ne_nil_of_mem sent
  unfold Lawful at lawful
  split at lawful
  · exact absurd lawful.2.2.2.1 never
  · exact absurd lawful.2.1 never
  · exact absurd lawful.1 never
  · exact absurd lawful never
  · rcases lawful with none | ⟨plan, equal, uploading⟩
    · exact absurd none never
    · rw [equal] at sent
      exact ⟨plan, List.mem_singleton.mp sent, uploading⟩

/-- A commit is sent only when every chunk that it names is reported as held or has been uploaded, and these
chunks make up the content with the named hash and size. The groups of the check cover the hashes of the plan,
each of them once, and what they need is uploaded once. -/
theorem blobCommit_guarded (injective : Function.Injective env.digest) (reached : Reached env config files t)
    {manifest : List CommitFile} (sent : manifest ∈ t.commits) :
    (∀ commit ∈ manifest,
      (∀ hash ∈ commit.chunks, hash ∈ t.response.available ∨ ∃ bytes, (hash, bytes) ∈ t.uploaded ∧
        chunkHash env.digest config.chunkHashPrefix bytes = hash) ∧
      ∃ pieces : List Bytes, pieces.map (chunkHash env.digest config.chunkHashPrefix) = commit.chunks ∧
        (∀ others : List Bytes, others.map (chunkHash env.digest config.chunkHashPrefix) = commit.chunks →
          others = pieces) ∧
        commit.contentHash = some (env.digest pieces.flatten) ∧ commit.size = some pieces.flatten.length) ∧
    (∀ group ∈ t.asked, group.length ≤ blobCheckMaxHashesPerRequest) ∧
    (∀ commit ∈ manifest, ∀ hash ∈ commit.chunks, hash ∈ t.asked.flatten) ∧ t.asked.flatten.Nodup ∧
    (t.response.available ++ t.response.needed).Perm t.asked.flatten ∧
    (t.uploaded.map Prod.fst).Perm t.response.needed := by
  obtain ⟨plan, rfl, ⟨sound, all, groups, answered⟩, needed, genuine⟩ := reached.lawful.sent sent
  rw [List.append_nil] at all groups needed
  have listed : ∀ commit ∈ plan.commitFiles, ∀ hash ∈ commit.chunks, hash ∈ t.asked.flatten := by
    intro commit inside hash among
    rw [all]
    exact sound.covered commit inside hash among
  refine ⟨fun commit inside => ⟨fun hash among => ?_, ?_⟩, groups, listed, all ▸ sound.nodup, answered, needed⟩
  · have either := answered.mem_iff.mpr (listed commit inside hash among)
    rcases List.mem_append.mp either with available | missing
    · exact Or.inl available
    · obtain ⟨⟨_, bytes⟩, present, rfl⟩ := List.mem_map.mp (needed.mem_iff.mpr missing)
      exact Or.inr ⟨bytes, present, genuine _ present⟩
  · obtain ⟨pieces, chunks, content, size⟩ := sound.assembled commit inside
    refine ⟨pieces, chunks.symm, fun others same => ?_, content, size⟩
    exact List.map_injective_iff.mpr (chunkHash_injective injective config.chunkHashPrefix) (same.trans chunks)

/-- Steps without an answer need no assumption about the engine. -/
theorem Reached.run {last : Transfer} {actions : List TransferAction} (reached : Reached env config files t)
    (quiet : ∀ action ∈ actions, ∀ response, action ≠ .answered (.ok response))
    (ran : actions.foldlM (Transfer.step env config files) t = some last) : Reached env config files last := by
  induction actions generalizing t with
  | nil =>
      cases ran
      exact reached
  | cons action rest ih =>
      obtain ⟨middle, taken, later⟩ := Option.bind_eq_some_iff.mp ran
      have silent := quiet action (List.mem_cons_self ..)
      exact ih (.step reached (fun _ _ _ response _ equal => absurd equal (silent response)) taken)
        (fun other inside => quiet other (List.mem_cons_of_mem _ inside)) later

/-- Two files share their first chunk, which the engine does not have. -/
def sharedChunk : List PendingPushFile := [
  ⟨ofText (osText (text "/home/a")), text "/docs/a", plainDigest [1, 2, 3], 3, 0, none⟩,
  ⟨ofText (osText (text "/home/b")), text "/docs/b", plainDigest [1, 2], 2, 0, none⟩]

def pairConfig : BlobConfig := { plainConfig with chunkSize := 2 }

def workerEnv : Env Shelf := { shelfEnv with parallelism := 2 }

/-- The workers read their files in turns. -/
def plannedInTurns : List TransferAction := [.opened 1 (.ok ()), .opened 0 (.ok ()), .read 0 (.ok [1, 2]),
  .read 1 (.ok [1, 2]), .read 1 (.ok []), .read 0 (.ok [3]), .read 0 (.ok []), .joined]

def uploadedShared : List TransferAction := [
  .arranged [⟨plainDigest [1, 2], ofText (osText (text "/home/a")), 0, 2⟩], .started, .chunkRead 0 (.ok [1, 2]),
  .sent 0 (.ok ()), .yielded 0, .committed (.ok ())]

def sharedRun (actions : List TransferAction) : Option Transfer :=
  actions.foldlM (Transfer.step workerEnv pairConfig sharedChunk) (start workerEnv pairConfig sharedChunk)

def heldTail : TransferAction := .answered (.ok ⟨[plainDigest [3]], [plainDigest [1, 2]]⟩)

def nextGroup (t : Transfer) : List Text := match t.phase with
  | .checking _ (group :: _) => group
  | _ => []

theorem blobCommit_guarded_sharedChunk : ∃ t, sharedRun (plannedInTurns ++ heldTail :: uploadedShared) = some t ∧
    t.commits.map (List.map CommitFile.path) = [[text "/docs/a", text "/docs/b"]] ∧
    t.uploaded = [(plainDigest [1, 2], [1, 2])] ∧ ∀ manifest ∈ t.commits, ∀ commit ∈ manifest,
      (∀ hash ∈ commit.chunks, hash ∈ t.response.available ∨ ∃ bytes, (hash, bytes) ∈ t.uploaded ∧
        chunkHash plainDigest [] bytes = hash) ∧
      ∃ pieces : List Bytes, pieces.map (chunkHash plainDigest []) = commit.chunks ∧
        (∀ others : List Bytes, others.map (chunkHash plainDigest []) = commit.chunks → others = pieces) ∧
        commit.contentHash = some (plainDigest pieces.flatten) ∧ commit.size = some pieces.flatten.length := by
  have planned : ∃ middle, sharedRun plannedInTurns = some middle ∧
      nextGroup middle = [plainDigest [1, 2], plainDigest [3]] := ⟨_, rfl, by decide⟩
  obtain ⟨middle, planned, group⟩ := planned
  have first : Reached workerEnv pairConfig sharedChunk middle := Reached.start.run (by
    simp [plannedInTurns]) planned
  have whole : ∃ t, sharedRun (plannedInTurns ++ heldTail :: uploadedShared) = some t ∧
      t.commits.map (List.map CommitFile.path) = [[text "/docs/a", text "/docs/b"]] ∧
      t.uploaded = [(plainDigest [1, 2], [1, 2])] := ⟨_, rfl, by decide, by decide⟩
  obtain ⟨t, ran, commits, uploaded⟩ := whole
  refine ⟨t, ran, commits, uploaded, fun manifest sent => ?_⟩
  rw [sharedRun, List.foldlM_append] at ran
  obtain ⟨again, before, rest⟩ := Option.bind_eq_some_iff.mp ran
  obtain rfl := Option.some.inj (before.symm.trans planned)
  obtain ⟨asked, answered, later⟩ := Option.bind_eq_some_iff.mp rest
  have second : Reached workerEnv pairConfig sharedChunk asked := by
    refine .step first (fun plan next rest response phase equal => ?_) answered
    cases equal
    have equal : next = [plainDigest [1, 2], plainDigest [3]] := by rw [← group, nextGroup, phase]
    rw [equal]
    decide
  have reached : Reached workerEnv pairConfig sharedChunk t := second.run (by simp [uploadedShared]) later
  exact (blobCommit_guarded plainDigest_injective reached sent).1

end Transfer

end AeordbSync

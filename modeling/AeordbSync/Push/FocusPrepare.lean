import AeordbSync.Push.FocusFlush

namespace AeordbSync
open Characters OsPath FileSystem Effect

variable {ρ : Type} {env : Env ρ} {view : ρ → Text → Option RemoteEntry} {t : Target ρ} {loose : Prop}
  {rest : List PushFilePrepRequest} {s next : PushState ρ} {config : BlobConfig} {hashPrefix : Text}
  {request : PushFilePrepRequest}

/-- What a request of the run grants to a path: it is the path's own, or its migration keeps away
from the content that the path is to have. -/
structure Considerate (env : Env ρ) (t : Target ρ) (request : PushFilePrepRequest) : Prop where
  legacy : request.legacySeparatorRemotePath = none
  own : request.remotePath = t.path → request.entryPath = t.entry ∧ request.modifiedAt = t.modified
  apart : t.apart → request.remotePath ≠ t.path → request.migrationOldRemotePath ≠ some t.path
  differ : t.wanted → request.remotePath ≠ t.path → request.migrationOldRemotePath = some t.path →
    request.storedMeta = none → ∀ content, t.disk.read request.entryPath = .ok content →
    env.digest content ≠ t.hash env

/-- The own request of a path finds it waiting. -/
structure Waits (env : Env ρ) (view : ρ → Text → Option RemoteEntry) (t : Target ρ)
    (request : PushFilePrepRequest) (rest : List PushFilePrepRequest) (s : PushState ρ) : Prop where
  wanted : t.wanted
  clear : Clear t.path s.pendingBatch.files rest
  quiet : Quiet t.path s.pendingMetadataUpdates
  held : ∀ m, request.storedMeta = some m → m.contentHash = t.hash env →
    t.HeldBy env (view s.world.remote t.path)
  stored : ∀ m, s.world.store.files.find t.path = some m → request.storedMeta = some m
  kept : t.apart → s.world.store.files.find t.path = request.storedMeta

theorem Tracked.waits (tracked : Tracked env view t loose [] [] (request :: rest) s)
    (own : request.remotePath = t.path) : Waits env view t request rest s := by
  have single := tracked.single
  simp only [List.nil_append, List.map_cons, List.count_append, List.count_cons, own, beq_self_eq_true,
    if_true] at single
  have clear : Clear t.path s.pendingBatch.files rest :=
    ⟨forall_ne_of_count (f := PendingPushFile.remotePath) (by omega),
      forall_ne_of_count (f := PushFilePrepRequest.remotePath) (by omega)⟩
  have busy : ¬ Clear t.path s.pendingBatch.files (request :: rest) :=
    fun clear => clear.2 request (List.mem_cons_self ..) own
  cases tracked.stage with
  | waiting wanted found inside path quiet held stored kept =>
      have same : found = request := by
        rcases List.mem_cons.mp inside with rfl | later
        · rfl
        · exact absurd path (clear.2 found later)
      subst found
      exact ⟨wanted, clear, quiet, held, stored, kept⟩
  | queued wanted file inside path => exact absurd path (clear.1 file inside)
  | settled _ clearly => exact absurd clearly busy
  | failed clearly => exact absurd clearly busy
  | untracked clearly => exact absurd clearly busy
  | lost clearly => exact absurd clearly busy
  | leaving _ clearly => exact absurd clearly busy

/-- The request of the path has been dealt with. -/
theorem Tracked.advance (tracked : Tracked env view t loose [] [] (request :: rest) s)
    (disk : next.world.disk = s.world.disk) (log : LogTrue env view t.path t.log next.world)
    (batch : next.pendingBatch = s.pendingBatch)
    (fresh : ∀ record ∈ next.pendingMetadataUpdates, record.path = t.path → t.Fresh env record)
    (stage : Stage env t False s.pendingBatch.files next.pendingMetadataUpdates rest (sight view t.path next)) :
    Tracked env view t False [] [] rest next where
  disk := disk.trans tracked.disk
  log := log
  carried := batch ▸ tracked.carried
  fresh := fresh
  single := by
    have single := tracked.single
    rw [batch]
    simp only [List.map_cons, List.count_append, List.count_cons] at single ⊢
    omega
  stage := by
    rw [batch]
    exact stage

theorem Tracked.abandoned (tracked : Tracked env view t False [] [] (request :: rest) s) (message : Text) :
    Tracked env view t False [] [] rest (s.failed message) := by
  by_cases own : request.remotePath = t.path
  · have waits := tracked.waits own
    exact tracked.advance rfl tracked.log rfl tracked.fresh
      (.failed waits.clear waits.quiet (PushState.errors_failed _ _))
  · exact (tracked.drop own).counted rfl rfl rfl (fun _ => rfl) fun _ => PushState.errors_failed _ _

/-- The remote holds the content of the path, and its record is still to be written. -/
structure Landed (env : Env ρ) (view : ρ → Text → Option RemoteEntry) (t : Target ρ)
    (rest : List PushFilePrepRequest) (s : PushState ρ) : Prop where
  disk : s.world.disk = t.disk
  log : LogTrue env view t.path t.log s.world
  wanted : t.wanted
  clear : Clear t.path s.pendingBatch.files rest
  quiet : Quiet t.path s.pendingMetadataUpdates
  held : t.HeldBy env (view s.world.remote t.path)

theorem Landed.withWorld (landed : Landed env view t rest s) {w : World ρ}
    (log : LogTrue env view t.path t.log w) (disk : w.disk = s.world.disk)
    (remote : w.remote = s.world.remote) : Landed env view t rest (s.withWorld w) :=
  ⟨disk.trans landed.disk, log, landed.wanted, landed.clear, landed.quiet, by
    rw [PushState.withWorld, remote]
    exact landed.held⟩

theorem Landed.same (landed : Landed env view t rest s) (world : next.world = s.world)
    (batch : next.pendingBatch = s.pendingBatch)
    (updates : next.pendingMetadataUpdates = s.pendingMetadataUpdates) : Landed env view t rest next :=
  ⟨by rw [world]; exact landed.disk, by rw [world]; exact landed.log, landed.wanted,
    by rw [batch]; exact landed.clear, by rw [updates]; exact landed.quiet,
    by rw [world]; exact landed.held⟩

/-- The record of a landed path makes it settled. -/
theorem Landed.tracked (landed : Landed env view t rest s) (recorded : s.world.store.files.find t.path ≠ none ∧
    ∀ m, s.world.store.files.find t.path = some m → t.Fresh env m) :
    Tracked env view t False [] [] rest s where
  disk := landed.disk
  log := landed.log
  carried := fun file inside own => absurd own (landed.clear.1 file inside)
  fresh := fun record inside own => absurd own (landed.quiet record inside)
  single := by
    have queue : (s.pendingBatch.files.map PendingPushFile.remotePath).count t.path = 0 := by
      rw [List.count_eq_zero]
      intro inside
      obtain ⟨file, listed, own⟩ := List.mem_map.mp inside
      exact landed.clear.1 file listed own
    have waiting : (rest.map PushFilePrepRequest.remotePath).count t.path = 0 := by
      rw [List.count_eq_zero]
      intro inside
      obtain ⟨request, listed, own⟩ := List.mem_map.mp inside
      exact landed.clear.2 request listed own
    simp only [List.nil_append, List.count_append]
    omega
  stage := .settled landed.wanted landed.clear landed.held (Or.inr ⟨recorded.2, fun _ => recorded.1⟩)

theorem logTrue_forgotten {path : Text} (gone : Text) {log : List (Event ρ)} {w : World ρ}
    (before : LogTrue env view path log w) (store : MetadataStore) :
    LogTrue env view path log
      { w.advance with store := store, log := .forgotten gone :: w.log } :=
  before.silent [.forgotten gone] rfl fun _ _ inside => by cases List.mem_singleton.mp inside

theorem deleteFileMeta_landed {path : Text} :
    Triple (Landed env view t rest) (onWorld (deleteFileMeta env path)) (fun _ => Landed env view t rest)
      (fun _ s => LogTrue env view t.path t.log s.world) :=
  onWorld_triple fun _ landed => writeStore_triple
    (fun w equal => by
      subst equal
      exact landed.withWorld (logTrue_forgotten _ landed.log _) rfl rfl)
    fun w e equal => by
      subst equal
      exact landed.log.congr rfl

theorem makeFileMeta_landed {file : PendingPushFile} :
    Triple (Landed env view t rest) (onWorld (makeFileMeta env file))
      (fun record s => Landed env view t rest s ∧ ∃ time, record = syncedMeta file time)
      (fun _ s => LogTrue env view t.path t.log s.world) :=
  onWorld_triple fun _ landed => (makeFileMeta_unmoved.weaken fun _ => Unmoved.of_eq).strengthen
    fun _ _ made => ⟨landed.withWorld (landed.log.congr made.1.log) made.1.disk made.1.remote, made.2⟩

/-- The store has the record of the path. -/
def Target.RecordedBy (env : Env ρ) (t : Target ρ) (s : PushState ρ) : Prop :=
  s.world.store.files.find t.path ≠ none ∧
    ∀ m, s.world.store.files.find t.path = some m → t.Fresh env m

section Landing

variable {file : PendingPushFile} (carries : t.Carries env file) (own : file.remotePath = t.path)
include carries own

theorem setFileMeta_landed {time : Int} :
    Triple (Landed env view t rest) (onWorld (setFileMeta env (syncedMeta file time)))
      (fun _ s => Landed env view t rest s ∧ t.RecordedBy env s)
      (fun _ s => LogTrue env view t.path t.log s.world) := by
  have fresh := carries.fresh time
  refine onWorld_triple fun s landed => setFileMetasBatch_triple (fun nothing => by cases nothing)
    (fun w equal => ?_) fun w e equal => ?_
  · subst equal
    have found : (s.world.store.files.setAll [syncedMeta file time]).find t.path =
        some (syncedMeta file time) := by
      rw [Records.setAll_cons, Records.setAll_nil, Records.find_set]
      exact if_pos own.symm
    have log : LogTrue env view t.path t.log { s.world.advance with
        store := { s.world.store with files := s.world.store.files.setAll [syncedMeta file time] }
        log := [syncedMeta file time].map (fun record => .recorded record s.world.remote) ++ s.world.log } := by
      refine landed.log.append _ rfl fun _ _ record remote inside _ _ => Or.inl ?_
      obtain ⟨rfl, rfl⟩ := Event.recorded.inj (List.mem_singleton.mp inside)
      obtain ⟨entry, present, same⟩ := landed.held
      exact ⟨entry, present, same.trans fresh.contentHash.symm⟩
    refine ⟨landed.withWorld log rfl rfl, ?_, fun m stored => ?_⟩
    · simp only [PushState.withWorld, found]
      exact Option.some_ne_none _
    · simp only [PushState.withWorld, found, Option.some.injEq] at stored
      exact stored ▸ fresh
  · subst equal
    exact landed.log.congr rfl

theorem recordMove_landed {oldPath : Text} :
    Triple (Landed env view t rest) (recordMove env oldPath file)
      (fun _ => Tracked env view t False [] [] rest)
      (fun _ s => LogTrue env view t.path t.log s.world) := by
  refine Triple.bind makeFileMeta_landed fun record => ?_
  refine Triple.assume (fun _ holds => holds.2) fun made => ?_
  obtain ⟨time, rfl⟩ := made
  refine Triple.bind (deleteFileMeta_landed.weaken fun _ holds => holds.1) fun _ => ?_
  refine Triple.bind (setFileMeta_landed carries own) fun _ => Triple.modify fun s holds => ?_
  exact Landed.tracked (holds.1.same rfl rfl rfl) holds.2

theorem recordTarget_landed {oldPath : Text} :
    Triple (Landed env view t rest) (recordTarget env oldPath file)
      (fun _ => Tracked env view t False [] [] rest)
      (fun _ s => LogTrue env view t.path t.log s.world) := by
  refine Triple.bind makeFileMeta_landed fun record => ?_
  refine Triple.assume (fun _ holds => holds.2) fun made => ?_
  obtain ⟨time, rfl⟩ := made
  have forget : Triple (Landed env view t rest) (forgetOldRecord env oldPath)
      (fun _ => Landed env view t rest) (fun _ s => LogTrue env view t.path t.log s.world) := by
    refine Triple.bind (Q := fun _ => Landed env view t rest) (Triple.get fun _ => id) fun _ => ?_
    refine Triple.ite (fun _ => ?_) fun _ => Triple.ret fun _ landed => landed
    exact Triple.bind deleteFileMeta_landed fun _ => Triple.modify fun _ landed => landed.same rfl rfl rfl
  refine Triple.bind (forget.weaken fun _ holds => holds.1) fun _ => ?_
  refine Triple.bind (setFileMeta_landed carries own) fun _ => Triple.modify fun s holds => ?_
  exact Landed.tracked (holds.1.same rfl rfl rfl) holds.2

end Landing

section Others

/-- A record of another path is written. -/
theorem setFileMeta_other {record : FileSyncMeta} (other : record.path ≠ t.path) :
    Triple (Tracked env view t False [] [] rest) (onWorld (setFileMeta env record))
      (fun _ => Tracked env view t False [] [] rest)
      (fun _ s => LogTrue env view t.path t.log s.world) := by
  have apart : ∀ one ∈ [record], one.path ≠ t.path := by
    intro one inside
    rwa [List.mem_singleton.mp inside]
  refine onWorld_triple fun s tracked => setFileMetasBatch_triple (fun nothing => by cases nothing)
    (fun w equal => ?_) fun w e equal => ?_
  · subst equal
    refine tracked.same (tracked.log.silent _ rfl fun one remote inside => ?_) rfl rfl rfl rfl
      (Records.find_setAll_other apart) (fun _ => rfl) id
    obtain ⟨two, listed, same⟩ := List.mem_map.mp inside
    exact (Event.recorded.inj same).1 ▸ apart two listed
  · subst equal
    exact tracked.log.congr rfl

/-- The record of the path is taken away by an entry that had the path before the migration. -/
theorem Stage.forgotten {queue : List PendingPushFile} {pending : List FileSyncMeta} {x y : Sight}
    (stage : Stage env t loose queue pending rest x) (shared : ¬ t.apart) (there : y.there = x.there)
    (gone : y.stored = none) (failed : x.failed → y.failed) :
    Stage env t False queue pending rest y := by
  cases stage with
  | waiting wanted request inside own quiet held _ _ =>
      refine .waiting wanted request inside own quiet (by rwa [there]) (fun m stored => ?_) ?_
      · rw [gone] at stored
        cases stored
      · exact fun apart => absurd apart shared
  | queued wanted file inside own quiet => exact .queued wanted file inside own quiet
  | settled wanted clear held _ =>
      refine .settled wanted clear (by rwa [there]) (Or.inr ⟨fun m stored => ?_, ?_⟩)
      · rw [gone] at stored
        cases stored
      · exact fun apart => absurd apart shared
  | failed clear quiet before => exact .failed clear quiet (failed before)
  | untracked clear quiet unwanted => exact .lost clear quiet unwanted shared gone
  | lost clear quiet unwanted => exact .lost clear quiet unwanted shared gone
  | leaving _ clear quiet unwanted => exact .lost clear quiet unwanted shared gone

/-- Deleting the record of the old path of another entry. -/
theorem deleteFileMeta_other {oldPath : Text} (shares : oldPath = t.path → ¬ t.apart)
    (moves : loose → oldPath = t.path) :
    Triple (Tracked env view t loose [] [] rest) (onWorld (deleteFileMeta env oldPath))
      (fun _ => Tracked env view t False [] [] rest)
      (fun _ s => LogTrue env view t.path t.log s.world) := by
  refine onWorld_triple fun s tracked => writeStore_triple (fun w equal => ?_) fun w e equal => ?_
  · subst equal
    have log := logTrue_forgotten oldPath tracked.log
      { s.world.store with files := s.world.store.files.remove oldPath }
    by_cases own : oldPath = t.path
    · refine ⟨tracked.disk, log, tracked.carried, tracked.fresh, tracked.single, ?_⟩
      refine tracked.stage.forgotten (shares own) rfl ?_ id
      simp only [sight, PushState.withWorld, Records.find_remove, own, if_true]
    · refine Tracked.tighten ?_ fun now => own (moves now)
      refine tracked.same log rfl rfl rfl rfl ?_ (fun _ => rfl) id
      simp only [PushState.withWorld, Records.find_remove, Ne.symm own, if_false]
  · subst equal
    exact tracked.log.congr rfl

variable {file : PendingPushFile} (other : file.remotePath ≠ t.path)
include other

theorem recordMove_other {oldPath : Text} (shares : oldPath = t.path → ¬ t.apart)
    (moves : loose → oldPath = t.path) :
    Triple (Tracked env view t loose [] [] rest) (recordMove env oldPath file)
      (fun _ => Tracked env view t False [] [] rest)
      (fun _ s => LogTrue env view t.path t.log s.world) := by
  refine Triple.bind (tracked_quiet fun _ => makeFileMeta_unmoved) fun record => ?_
  refine Triple.assume (fun _ holds => holds.2) fun made => ?_
  obtain ⟨time, rfl⟩ := made
  refine Triple.bind ((deleteFileMeta_other shares moves).weaken fun _ holds => holds.1) fun _ => ?_
  refine Triple.bind (setFileMeta_other other) fun _ => Triple.modify fun s tracked => ?_
  refine tracked.counted rfl rfl rfl (fun apart => ?_) id
  have notOld : t.path ≠ oldPath := fun equal => shares equal.symm apart
  simp only [PushState.moved, Records.find_set, Records.find_remove, notOld, if_false]
  exact if_neg (Ne.symm other)

theorem recordTarget_other {oldPath : Text} (shares : oldPath = t.path → ¬ t.apart) :
    Triple (Tracked env view t False [] [] rest) (recordTarget env oldPath file)
      (fun _ => Tracked env view t False [] [] rest)
      (fun _ s => LogTrue env view t.path t.log s.world) := by
  refine Triple.bind (tracked_quiet fun _ => makeFileMeta_unmoved) fun record => ?_
  refine Triple.assume (fun _ holds => holds.2) fun made => ?_
  obtain ⟨time, rfl⟩ := made
  have forget : Triple (Tracked env view t False [] [] rest) (forgetOldRecord env oldPath)
      (fun _ => Tracked env view t False [] [] rest)
      (fun _ s => LogTrue env view t.path t.log s.world) := by
    refine Triple.bind (Q := fun _ => Tracked env view t False [] [] rest) (Triple.get fun _ => id) fun _ => ?_
    refine Triple.ite (fun _ => ?_) fun _ => Triple.ret fun _ tracked => tracked
    refine Triple.bind (deleteFileMeta_other shares False.elim) fun _ => Triple.modify fun s tracked => ?_
    refine tracked.counted rfl rfl rfl (fun apart => ?_) id
    have notOld : t.path ≠ oldPath := fun equal => shares equal.symm apart
    simp only [PushState.forgot, Records.find_remove, notOld, if_false]
  refine Triple.bind (forget.weaken fun _ holds => holds.1) fun _ => ?_
  refine Triple.bind (setFileMeta_other other) fun _ => Triple.modify fun s tracked => ?_
  refine tracked.counted rfl rfl rfl (fun _ => ?_) id
  simp only [PushState.alreadyThere, Records.find_set]
  exact if_neg (Ne.symm other)

end Others

end AeordbSync

import AeordbSync.Push.Focus

namespace AeordbSync
open Characters OsPath FileSystem Effect

variable {ρ : Type} {env : Env ρ} {view : ρ → Text → Option RemoteEntry} {t : Target ρ} {loose : Prop}
  {held : List PendingPushFile} {extra : List FileSyncMeta} {rest : List PushFilePrepRequest}
  {s : PushState ρ} {config : BlobConfig} {hashPrefix : Text}

/-- Each record was made for the file in its place. -/
def Made (files : List PendingPushFile) (metas : List FileSyncMeta) : Prop :=
  List.Forall₂ (fun file record => ∃ time, record = syncedMeta file time) files metas

theorem Made.of_record {files : List PendingPushFile} {metas : List FileSyncMeta} (made : Made files metas)
    {record : FileSyncMeta} (inside : record ∈ metas) :
    ∃ file ∈ files, ∃ time, record = syncedMeta file time := by
  induction made with
  | nil => cases inside
  | @cons file _ _ _ head _ ih =>
      rcases List.mem_cons.mp inside with rfl | later
      · exact ⟨file, List.mem_cons_self .., head⟩
      · obtain ⟨other, listed, equal⟩ := ih later
        exact ⟨other, List.mem_cons_of_mem _ listed, equal⟩

theorem Made.of_file {files : List PendingPushFile} {metas : List FileSyncMeta} (made : Made files metas)
    {file : PendingPushFile} (inside : file ∈ files) : ∃ record ∈ metas, record.path = file.remotePath := by
  induction made with
  | nil => cases inside
  | @cons _ record _ _ head _ ih =>
      rcases List.mem_cons.mp inside with rfl | later
      · obtain ⟨time, rfl⟩ := head
        exact ⟨_, List.mem_cons_self .., rfl⟩
      · obtain ⟨other, listed, equal⟩ := ih later
        exact ⟨other, List.mem_cons_of_mem _ listed, equal⟩

/-- A file of the path that is in hand is the only thing left to do for the path. -/
theorem Tracked.alone {files : List PendingPushFile}
    (tracked : Tracked env view t loose (files ++ held) extra rest s) {file : PendingPushFile}
    (inside : file ∈ files) (own : file.remotePath = t.path) :
    t.wanted ∧ Clear t.path (held ++ s.pendingBatch.files) rest ∧
      (files.map PendingPushFile.remotePath).count t.path ≤ 1 ∧
      Quiet t.path (extra ++ s.pendingMetadataUpdates) := by
  have single := tracked.single
  simp only [List.map_append, List.count_append] at single
  have positive := count_pos_of_mem (f := PendingPushFile.remotePath) inside own
  have queue : file ∈ files ++ held ++ s.pendingBatch.files :=
    List.mem_append_left _ (List.mem_append_left _ inside)
  refine ⟨?_, ⟨fun other listed => ?_, forall_ne_of_count (by omega)⟩, by omega, ?_⟩
  · cases tracked.stage with
    | queued wanted => exact wanted
    | waiting wanted => exact wanted
    | settled wanted => exact wanted
    | failed clear => exact absurd own (clear.1 file queue)
    | untracked clear => exact absurd own (clear.1 file queue)
    | lost clear => exact absurd own (clear.1 file queue)
    | leaving _ clear => exact absurd own (clear.1 file queue)
  · rcases List.mem_append.mp listed with early | late
    · have none : (held.map PendingPushFile.remotePath).count t.path = 0 := by omega
      exact forall_ne_of_count none other early
    · have none : (s.pendingBatch.files.map PendingPushFile.remotePath).count t.path = 0 := by omega
      exact forall_ne_of_count none other late
  · cases tracked.stage with
    | queued _ _ _ _ quiet => exact quiet
    | waiting _ _ _ _ quiet => exact quiet
    | settled _ clear => exact absurd own (clear.1 file queue)
    | failed clear => exact absurd own (clear.1 file queue)
    | untracked clear => exact absurd own (clear.1 file queue)
    | lost clear => exact absurd own (clear.1 file queue)
    | leaving _ clear => exact absurd own (clear.1 file queue)

theorem LogTrue.uploads {paths : List Text} {w next : World ρ} {path : Text} {log : List (Event ρ)}
    (before : LogTrue env view path log w) (uploads : Uploads view paths w next) :
    LogTrue env view path log next := by
  obtain ⟨new, equal, all⟩ := uploads.log
  refine before.silent _ equal fun record remote inside => ?_
  exact (all _ inside).elim

/-- A refused upload leaves its files in hand. -/
theorem Tracked.refused {files : List PendingPushFile}
    (tracked : Tracked env view t loose (files ++ held) extra rest s) {w : World ρ}
    (uploads : Uploads view (files.map PendingPushFile.remotePath) s.world w) :
    Tracked env view t loose (files ++ held) extra rest (s.withWorld w) where
  disk := uploads.disk.trans tracked.disk
  log := tracked.log.uploads uploads
  carried := tracked.carried
  fresh := tracked.fresh
  single := tracked.single
  stage := by
    by_cases mine : ∃ file ∈ files, file.remotePath = t.path
    · obtain ⟨file, inside, own⟩ := mine
      obtain ⟨wanted, -, -, quiet⟩ := tracked.alone inside own
      exact .queued wanted file (List.mem_append_left _ (List.mem_append_left _ inside)) own quiet
    · refine tracked.stage.weaken (uploads.other _ ?_) ?_ (fun _ => rfl) id
      · rintro listed
        obtain ⟨file, inside, own⟩ := List.mem_map.mp listed
        exact mine ⟨file, inside, own⟩
      · simp only [sight, PushState.withWorld, uploads.store]

/-- After an upload the records of its files are in hand. -/
theorem Tracked.uploaded {files : List PendingPushFile} {metas : List FileSyncMeta}
    (tracked : Tracked env view t loose (files ++ held) extra rest s) {w : World ρ}
    (uploads : Uploads view (files.map PendingPushFile.remotePath) s.world w)
    (holds : ∀ file ∈ files, file.remotePath = t.path → Holds env.digest (view w.remote) t.path (t.hash env))
    (made : Made files metas) :
    Tracked env view t loose held (extra ++ metas) rest (s.withWorld w) where
  disk := uploads.disk.trans tracked.disk
  log := tracked.log.uploads uploads
  carried := fun file inside => tracked.carried file (by
    rw [List.append_assoc]
    exact List.mem_append_right _ inside)
  fresh := by
    intro record inside own
    rcases List.mem_append.mp inside with early | late
    · rcases List.mem_append.mp early with old | new
      · exact tracked.fresh record (List.mem_append_left _ old) own
      · obtain ⟨file, listed, time, rfl⟩ := made.of_record new
        refine (tracked.carried file ?_ own).fresh time
        exact List.mem_append_left _ (List.mem_append_left _ listed)
    · exact tracked.fresh record (List.mem_append_right _ late) own
  single := by
    have single := tracked.single
    simp only [List.map_append, List.count_append] at single ⊢
    simp only [PushState.withWorld]
    omega
  stage := by
    by_cases mine : ∃ file ∈ files, file.remotePath = t.path
    · obtain ⟨file, inside, own⟩ := mine
      obtain ⟨wanted, clear, -, -⟩ := tracked.alone inside own
      obtain ⟨record, listed, path⟩ := made.of_file inside
      refine .settled wanted clear (holds file inside own) (Or.inl ⟨record, ?_, path.trans own⟩)
      exact List.mem_append_left _ (List.mem_append_right _ listed)
    · refine tracked.stage.map id (fun clear => ⟨fun file inside => clear.1 file ?_, clear.2⟩)
        (fun quiet record inside => ?_) (fun _ inside _ => inside) (fun file inside own => ?_)
        (fun record inside _ => ?_) (uploads.other _ ?_) ?_ (fun _ _ => rfl) id
      · rw [List.append_assoc]
        exact List.mem_append_right _ inside
      · rcases List.mem_append.mp inside with early | late
        · rcases List.mem_append.mp early with old | new
          · exact quiet record (List.mem_append_left _ old)
          · obtain ⟨file, listed, time, rfl⟩ := made.of_record new
            exact fun own => mine ⟨file, listed, own⟩
        · exact quiet record (List.mem_append_right _ late)
      · rw [List.append_assoc] at inside
        rcases List.mem_append.mp inside with here | later
        · exact absurd ⟨file, here, own⟩ mine
        · exact later
      · rcases List.mem_append.mp inside with old | late
        · exact List.mem_append_left _ (List.mem_append_left _ old)
        · exact List.mem_append_right _ late
      · rintro listed
        obtain ⟨file, inside, own⟩ := List.mem_map.mp listed
        exact mine ⟨file, inside, own⟩
      · simp only [sight, PushState.withWorld, uploads.store]

theorem mem_uploaded {files : List PendingPushFile} {record : FileSyncMeta} :
    record ∈ [] ++ (s.uploaded files extra).pendingMetadataUpdates ↔
      record ∈ extra ++ s.pendingMetadataUpdates := by
  simp [PushState.uploaded, or_comm]

/-- The records in hand join the records that wait. -/
theorem Tracked.handed (tracked : Tracked env view t loose held extra rest s)
    (files : List PendingPushFile) : Tracked env view t loose held [] rest (s.uploaded files extra) where
  disk := tracked.disk
  log := tracked.log
  carried := tracked.carried
  fresh := fun record inside => tracked.fresh record (mem_uploaded.mp inside)
  single := tracked.single
  stage := tracked.stage.map id id (fun quiet record inside => quiet record (mem_uploaded.mp inside))
    (fun _ inside _ => inside) (fun _ inside _ => inside) (fun _ inside _ => mem_uploaded.mpr inside) rfl rfl
    (fun quiet _ => Records.find_setAll_other fun record inside => quiet record (List.mem_append_left _ inside))
    id

/-- The waiting records are taken in hand. -/
theorem Tracked.took (tracked : Tracked env view t loose held [] rest s) :
    Tracked env view t loose held s.pendingMetadataUpdates rest s.tookUpdates where
  disk := tracked.disk
  log := tracked.log
  carried := tracked.carried
  fresh := fun record inside => tracked.fresh record (by simpa [PushState.tookUpdates] using inside)
  single := tracked.single
  stage := by
    have same : s.pendingMetadataUpdates ++ s.tookUpdates.pendingMetadataUpdates =
        [] ++ s.pendingMetadataUpdates := by simp [PushState.tookUpdates]
    rw [same]
    exact tracked.stage

/-- Records of a path are only ever in hand while the remote holds its content. -/
theorem Tracked.held_of_pending (tracked : Tracked env view t loose held extra rest s)
    {record : FileSyncMeta} (inside : record ∈ extra ++ s.pendingMetadataUpdates)
    (own : record.path = t.path) :
    t.wanted ∧ Clear t.path (held ++ s.pendingBatch.files) rest ∧
      t.HeldBy env (view s.world.remote t.path) := by
  cases tracked.stage with
  | settled wanted clear held => exact ⟨wanted, clear, held⟩
  | waiting _ _ _ _ quiet => exact absurd own (quiet record inside)
  | queued _ _ _ _ quiet => exact absurd own (quiet record inside)
  | failed _ quiet => exact absurd own (quiet record inside)
  | untracked _ quiet => exact absurd own (quiet record inside)
  | lost _ quiet => exact absurd own (quiet record inside)
  | leaving _ _ quiet => exact absurd own (quiet record inside)

/-- The records in hand are written, and each of them is true. -/
theorem Tracked.written {metas : List FileSyncMeta} (tracked : Tracked env view t loose held extra rest s)
    (mine : ∀ record ∈ metas, record ∈ extra)
    (covers : ∀ record ∈ extra, ∃ other ∈ metas, other.path = record.path) :
    Tracked env view t loose held [] rest (s.withWorld { s.world.advance with
      store := { s.world.store with files := s.world.store.files.setAll metas }
      log := metas.map (fun record => .recorded record s.world.remote) ++ s.world.log }) where
  disk := tracked.disk
  log := by
    refine tracked.log.append _ rfl fun new _ record remote inside own _ => Or.inl ?_
    obtain ⟨other, listed, equal⟩ := List.mem_map.mp inside
    simp only [Event.recorded.injEq] at equal
    obtain ⟨rfl, rfl⟩ := equal
    have pending := List.mem_append_left s.pendingMetadataUpdates (mine other listed)
    obtain ⟨entry, present, same⟩ := (tracked.held_of_pending pending own).2.2
    exact ⟨entry, present, same.trans (tracked.fresh other pending own).contentHash.symm⟩
  carried := tracked.carried
  fresh := fun record inside => tracked.fresh record (List.mem_append_right _ inside)
  single := tracked.single
  stage := by
    by_cases own : ∃ record ∈ extra, record.path = t.path
    · obtain ⟨record, inside, path⟩ := own
      obtain ⟨wanted, clear, holds⟩ :=
        tracked.held_of_pending (List.mem_append_left _ inside) path
      obtain ⟨other, listed, same⟩ := covers record inside
      obtain ⟨last, among, lastPath, found⟩ := Records.find_setAll_covered s.world.store.files
        ⟨other, listed, same.trans path⟩
      have fresh := tracked.fresh last (List.mem_append_left _ (mine last among)) lastPath
      refine .settled wanted clear holds (Or.inr ⟨fun m stored => ?_, fun _ => ?_⟩)
      · have equal := found.symm.trans stored
        rw [Option.some.injEq] at equal
        exact equal ▸ fresh
      · simp only [sight, PushState.withWorld, found]
        exact Option.some_ne_none _
    · have absent : ∀ record ∈ metas, record.path ≠ t.path :=
        fun record inside path => own ⟨record, mine record inside, path⟩
      refine tracked.stage.map id id (fun quiet record inside => quiet record ?_) (fun _ inside _ => inside)
        (fun _ inside _ => inside) (fun record inside path => ?_) rfl ?_ (fun _ _ => rfl) id
      · exact List.mem_append_right _ inside
      · rcases List.mem_append.mp inside with early | late
        · exact absurd ⟨record, early, path⟩ own
        · exact late
      · simp only [sight, PushState.withWorld, Records.find_setAll_other absent]

theorem flushPendingMetadataUpdates_tracked :
    Triple (Tracked env view t loose held [] rest) (flushPendingMetadataUpdates env)
      (fun _ s => Tracked env view t loose held [] rest s ∧ s.pendingMetadataUpdates = [])
      (fun _ s => LogTrue env view t.path t.log s.world) := by
  intro s tracked
  refine Triple.ite (P := (· = s)) (fun empty => ?_) (fun _ => ?_) s rfl
  · exact Triple.ret fun _ equal => by subst equal; exact ⟨tracked, empty⟩
  · refine Triple.bind (Q := fun _ u => u = s.tookUpdates) (Triple.modify fun _ equal => by rw [equal]) fun _ => ?_
    refine onWorld_triple fun u equal => ?_
    subst equal
    refine setFileMetasBatch_triple (fun nothing w same => ?_) (fun w same => ?_) fun w e same => ?_
    · subst same
      have none : s.pendingMetadataUpdates = [] := by
        by_contra some
        obtain ⟨record, inside⟩ := List.exists_mem_of_ne_nil _ some
        obtain ⟨other, listed, -⟩ := coalesceFileMetas_covers inside
        rw [nothing] at listed
        cases listed
      have took := tracked.took
      rw [none] at took
      exact ⟨took, rfl⟩
    · subst same
      exact ⟨tracked.took.written (fun _ => mem_coalesceFileMetas) (fun _ => coalesceFileMetas_covers), rfl⟩
    · subst same
      exact tracked.log

/-- A refused file leaves the hand with an error. -/
theorem Tracked.gaveUp {file : PendingPushFile}
    (tracked : Tracked env view t loose (file :: held) extra rest s) (message : Text) :
    Tracked env view t loose held extra rest (s.failed message) ∧
      (file.remotePath = t.path → Clear t.path (held ++ s.pendingBatch.files) rest ∧
        Quiet t.path (extra ++ s.pendingMetadataUpdates)) := by
  have inHand : Tracked env view t loose ([file] ++ held) extra rest s := tracked
  have alone : file.remotePath = t.path → _ := fun own => inHand.alone (List.mem_singleton.mpr rfl) own
  refine ⟨⟨tracked.disk, tracked.log, fun other inside => tracked.carried other (List.mem_cons_of_mem _ inside),
    tracked.fresh, ?_, ?_⟩, fun own => ⟨(alone own).2.1, (alone own).2.2.2⟩⟩
  · have single := tracked.single
    simp only [List.cons_append, List.map_cons, List.count_cons] at single
    simp only [PushState.failed]
    omega
  · by_cases own : file.remotePath = t.path
    · obtain ⟨-, clear, -, quiet⟩ := alone own
      exact .failed clear quiet (PushState.errors_failed _ _)
    · refine tracked.stage.map id (fun clear => ⟨fun other inside => clear.1 other ?_, clear.2⟩) id
        (fun _ inside _ => inside) (fun other inside path => ?_) (fun _ inside _ => inside) rfl rfl
        (fun _ _ => rfl) fun _ => PushState.errors_failed _ _
      · exact List.mem_cons_of_mem _ inside
      · rcases List.mem_cons.mp inside with rfl | later
        · exact absurd path own
        · exact later

/-- The run has noted a refusal that excuses a record of the path. -/
def Accused (path : Text) (log : List (Event ρ)) (w : World ρ) : Prop :=
  ∃ new, w.log = new ++ log ∧ Excused path new

/-- What has failed may be recorded in any way that is excused. -/
theorem suppressRetry_tracked {file : PendingPushFile} :
    Triple (fun s => Tracked env view t loose held extra rest s ∧ (file.remotePath = t.path →
        Clear t.path (held ++ s.pendingBatch.files) rest ∧
        Quiet t.path (extra ++ s.pendingMetadataUpdates) ∧ s.errors ≠ [] ∧ Accused t.path t.log s.world))
      (suppressRetry env file) (fun _ => Tracked env view t loose held extra rest)
      (fun _ s => LogTrue env view t.path t.log s.world) := by
  refine Triple.fix fun s before => ?_
  obtain ⟨tracked, own⟩ := before
  refine Triple.bind (Q := fun record u => ∃ w, Unmoved s.world w ∧ u = s.withWorld w ∧
    record.path = file.remotePath) ?_ fun record => ?_
  · refine onWorld_triple fun u equal => ?_
    subst equal
    refine (makeFileMeta_unmoved.weaken fun _ => Unmoved.of_eq).strengthen fun record w holds => ?_
    obtain ⟨unmoved, time, rfl⟩ := holds
    exact ⟨w, unmoved, rfl, rfl⟩
  refine Triple.bind (Q := fun _ => Tracked env view t loose held extra rest) (Triple.attempt ?_)
    fun _ => Triple.ret fun _ holds => holds
  refine onWorld_triple fun u holds => ?_
  obtain ⟨w, unmoved, rfl, path⟩ := holds
  have still := tracked.still unmoved
  refine setFileMetasBatch_triple (fun nothing => by cases nothing) (fun v equal => ?_) fun v _ equal => ?_
  · subst equal
    by_cases mine : file.remotePath = t.path
    · obtain ⟨clear, quiet, failed, accused⟩ := own mine
      refine ⟨still.disk, ?_, still.carried, still.fresh, still.single, .failed clear quiet failed⟩
      refine still.log.append _ rfl fun new equal _ _ _ _ _ => Or.inr ?_
      obtain ⟨known, noted, error, listed, forbidden⟩ := accused
      rw [← unmoved.log] at noted
      have agree : new = known := List.append_cancel_right (equal.symm.trans noted)
      exact ⟨error, List.mem_append_right _ (agree ▸ listed), forbidden⟩
    · have other : ∀ one ∈ [record], one.path ≠ t.path := by
        intro one inside
        rw [List.mem_singleton.mp inside, path]
        exact mine
      refine still.same (still.log.silent _ rfl fun one remote inside => ?_) rfl rfl rfl rfl
        (Records.find_setAll_other other) (fun _ => rfl) id
      obtain ⟨two, listed, same⟩ := List.mem_map.mp inside
      simp only [Event.recorded.injEq] at same
      exact same.1 ▸ other two listed
  · subst equal
    exact still.still (Unmoved.refl _).advance

theorem recordPushFailure_tracked {file : PendingPushFile} {error : ClientError} :
    Triple (Tracked env view t loose (file :: held) extra rest) (recordPushFailure env file error)
      (fun _ => Tracked env view t loose held extra rest)
      (fun _ s => LogTrue env view t.path t.log s.world) := by
  refine Triple.bind (Q := fun _ s => Tracked env view t loose (file :: held) extra rest s ∧
    (file.remotePath = t.path → isForbidden file.remotePath error = true → Accused t.path t.log s.world)) ?_ fun _ => ?_
  · refine onWorld_triple fun s tracked => note_triple fun w equal => ?_
    subst equal
    have silent : LogTrue env view t.path t.log
        { s.world with log := .uploadFailed file.remotePath error :: s.world.log } :=
      tracked.log.silent [.uploadFailed file.remotePath error] rfl fun record remote inside => by
        rcases List.mem_singleton.mp inside
    refine ⟨tracked.same silent rfl rfl rfl rfl rfl (fun _ => rfl) id, fun own forbidden => ?_⟩
    obtain ⟨new, same, -⟩ := tracked.log
    refine ⟨.uploadFailed file.remotePath error :: new, by simp [PushState.withWorld, same], error, ?_,
      own ▸ forbidden⟩
    rw [← own]
    exact List.mem_cons_self ..
  refine Triple.ite (fun _ => Triple.throw fun _ holds => holds.1.log) fun _ => ?_
  refine Triple.ite (fun _ => Triple.throw fun _ holds => holds.1.log) fun _ => ?_
  refine Triple.bind (Q := fun _ s => Tracked env view t loose held extra rest s ∧
    (isForbidden file.remotePath error = true → file.remotePath = t.path →
      Clear t.path (held ++ s.pendingBatch.files) rest ∧
      Quiet t.path (extra ++ s.pendingMetadataUpdates) ∧ s.errors ≠ [] ∧ Accused t.path t.log s.world))
    (Triple.modify fun s holds => ?_) fun _ => ?_
  · obtain ⟨next, alone⟩ := holds.1.gaveUp (failedToUpload file.remotePath error)
    refine ⟨next, fun forbidden own => ⟨(alone own).1, (alone own).2, PushState.errors_failed _ _, ?_⟩⟩
    exact holds.2 own forbidden
  · exact Triple.when (fun forbidden => suppressRetry_tracked.weaken fun _ holds =>
      ⟨holds.1, holds.2 forbidden⟩) fun _ _ holds => holds.1

/-- A program that only reads keeps the invariant. -/
theorem tracked_quiet {α : Type} {x : Program ρ α} {F : α → Prop}
    (quiet : ∀ w, Triple (Unmoved w) x (fun a next => Unmoved w next ∧ F a) (fun _ => Unmoved w)) :
    Triple (Tracked env view t loose held extra rest) (onWorld x)
      (fun a s => Tracked env view t loose held extra rest s ∧ F a)
      (fun _ s => LogTrue env view t.path t.log s.world) := by
  refine onWorld_triple fun s tracked => ?_
  refine (quiet s.world).conseq (fun _ => Unmoved.of_eq) (fun a w holds => ?_) fun e w unmoved => ?_
  · exact ⟨tracked.still holds.1, holds.2⟩
  · exact tracked.log.congr unmoved.log

section Batch

variable {batch : PushBatch} {α : Type}

/-- Outside of the scan the batch is only taken, never filled. -/
def KeepsBatch (batch : PushBatch) (x : PushProgram ρ α) : Prop :=
  Triple (fun s => s.pendingBatch = batch) x (fun _ s => s.pendingBatch = batch) (fun _ _ => True)

theorem onWorld_batch (x : Program ρ α) : KeepsBatch batch (onWorld x) :=
  onWorld_triple fun _ kept => Triple.trivially (fun _ _ => kept) fun _ _ => trivial

theorem modify_batch {f : PushState ρ → PushState ρ} (same : ∀ s, (f s).pendingBatch = s.pendingBatch) :
    KeepsBatch batch (Proc.modify f) :=
  Triple.modify fun s kept => (same s).trans kept

theorem flushPendingMetadataUpdates_batch : KeepsBatch batch (flushPendingMetadataUpdates env) := by
  refine Triple.bind (Q := fun _ s => s.pendingBatch = batch) (Triple.get fun _ => id) fun _ => ?_
  refine Triple.ite (fun _ => Triple.ret fun _ kept => kept) fun _ => ?_
  exact Triple.bind (modify_batch fun _ => rfl) fun _ => onWorld_batch _

theorem recordPushFailure_batch {file : PendingPushFile} {error : ClientError} :
    KeepsBatch batch (recordPushFailure env file error) := by
  refine Triple.bind (onWorld_batch _) fun _ => ?_
  refine Triple.ite (fun _ => Triple.throw fun _ _ => trivial) fun _ => ?_
  refine Triple.ite (fun _ => Triple.throw fun _ _ => trivial) fun _ => ?_
  refine Triple.bind (modify_batch fun _ => rfl) fun _ => ?_
  refine Triple.when (fun _ => ?_) fun _ _ kept => kept
  refine Triple.bind (onWorld_batch _) fun _ => ?_
  refine Triple.bind (Q := fun _ s => s.pendingBatch = batch) (Triple.attempt ?_)
    fun _ => Triple.ret fun _ kept => kept
  exact onWorld_triple fun _ kept => Triple.trivially (fun _ _ => kept) fun _ _ => kept

theorem pushSeparately_batch {files : List PendingPushFile} :
    KeepsBatch batch (pushSeparately env config files) := by
  induction files with
  | nil => exact Triple.ret fun _ kept => kept
  | cons file rest ih =>
      refine Triple.bind (Q := fun _ s => s.pendingBatch = batch) (Triple.attempt ?_) fun outcome => ?_
      · exact onWorld_triple fun _ kept => Triple.trivially (fun _ _ => kept) fun _ _ => kept
      cases outcome with
      | error error => exact Triple.bind recordPushFailure_batch fun _ => ih
      | ok _ =>
          exact Triple.bind (onWorld_batch _) fun _ => Triple.bind ih fun _ => Triple.ret fun _ kept => kept

theorem pushFiles_batch {files : List PendingPushFile} : KeepsBatch batch (pushFiles env config files) := by
  refine Triple.bind (Q := fun _ s => s.pendingBatch = batch) (Triple.attempt ?_) fun outcome => ?_
  · exact onWorld_triple fun _ kept => Triple.trivially (fun _ _ => kept) fun _ _ => kept
  cases outcome with
  | error error =>
      refine Triple.ite (fun _ => Triple.throw fun _ _ => trivial) fun _ => ?_
      refine Triple.ite (fun _ => Triple.throw fun _ _ => trivial) fun _ => ?_
      refine Triple.bind pushSeparately_batch fun _ => ?_
      exact Triple.bind (modify_batch fun _ => rfl) fun _ => flushPendingMetadataUpdates_batch
  | ok _ =>
      refine Triple.bind (onWorld_batch _) fun _ => ?_
      exact Triple.bind (modify_batch fun _ => rfl) fun _ => flushPendingMetadataUpdates_batch

end Batch

section Uploads

variable (spec : EngineSpec env.digest hashPrefix env.engine view)
  (injective : Function.Injective env.digest)
  (readable : t.wanted → t.disk.read t.entry = .ok t.content)
  (same : config.chunkHashPrefix = hashPrefix)
include spec injective readable same

/-- An attempt either leaves its files in hand or has pushed them all. -/
theorem attemptUpload_tracked {files : List PendingPushFile} {E : ClientError → PushState ρ → Prop} :
    Triple (Tracked env view t loose (files ++ held) extra rest)
      (Proc.attempt (onWorld (pushBatchViaChunks env config files)))
      (fun r s => (∀ e, r = .error e → Tracked env view t loose (files ++ held) extra rest s) ∧
        (r = .ok () → ∃ before : PushState ρ, Tracked env view t loose (files ++ held) extra rest before ∧
          ∃ w, Uploads view (files.map PendingPushFile.remotePath) before.world w ∧ s = before.withWorld w ∧
            ∀ file ∈ files, file.remotePath = t.path →
              Holds env.digest (view w.remote) t.path (t.hash env))) E := by
  refine Triple.attempt (onWorld_triple fun s tracked => ?_)
  let mine := Uploads view (files.map PendingPushFile.remotePath) s.world
  have kept : Triple mine (pushBatchViaChunks env config files) (fun _ => mine) (fun _ => mine) :=
    pushBatchViaChunks_uploads spec.toEngineFrame fun file => List.mem_map_of_mem
  have uploads := kept.weaken (U := (· = s.world)) fun w equal => by rw [equal]; exact Uploads.refl _
  have landed : Triple (· = s.world) (pushBatchViaChunks env config files)
      (fun _ w => ∀ file ∈ files, file.remotePath = t.path →
        Holds env.digest (view w.remote) t.path (t.hash env)) (fun _ _ => True) := by
    by_cases mine : ∃ file ∈ files, file.remotePath = t.path
    · obtain ⟨file, inside, own⟩ := mine
      obtain ⟨wanted, -, single, -⟩ := tracked.alone inside own
      refine (pushBatchViaChunks_holds spec injective same ⟨file, inside, own⟩
        (fun other listed path => ?_) single).conseq (P := fun w => w.disk = t.disk)
          (fun w equal => by rw [equal]; exact tracked.disk) (fun _ _ holds _ _ _ => holds) fun _ _ _ => trivial
      have carries := tracked.carried other (List.mem_append_left _ (List.mem_append_left _ listed)) path
      exact ⟨carries.contentHash, t.content, by rw [carries.localPath]; exact readable wanted, rfl⟩
    · refine fun w _ => ?_
      have vacuous : ∀ (w : World ρ), ∀ file ∈ files, file.remotePath = t.path →
          Holds env.digest (view w.remote) t.path (t.hash env) :=
        fun w file inside own => absurd ⟨file, inside, own⟩ mine
      rcases pushBatchViaChunks env config files w with ⟨result, next⟩
      cases result
      · exact trivial
      · exact vacuous next
  refine (uploads.both landed).conseq (fun _ => id) (fun _ w holds => ?_) fun e w holds => ?_
  · exact ⟨(fun _ equal => by cases equal), fun _ => ⟨s, tracked, w, holds.1, rfl, holds.2⟩⟩
  · exact ⟨fun _ _ => tracked.refused holds.1, fun equal => by cases equal⟩

/-- Every file that is tried on its own leaves the hand, with a record or with an error. -/
theorem pushSeparately_tracked {files : List PendingPushFile} :
    Triple (Tracked env view t loose files extra rest) (pushSeparately env config files)
      (fun done => Tracked env view t loose [] (extra ++ done.map Prod.snd) rest)
      (fun _ s => LogTrue env view t.path t.log s.world) := by
  induction files generalizing extra with
  | nil => exact Triple.ret fun s tracked => by simpa using tracked
  | cons file others ih =>
      refine Triple.bind ((attemptUpload_tracked spec injective readable same).weaken
        (P := Tracked env view t loose ([file] ++ others) extra rest) fun _ => id) fun outcome => ?_
      cases outcome with
      | error error =>
          refine Triple.bind (recordPushFailure_tracked.weaken fun s holds => holds.1 error rfl) fun _ => ih
      | ok _ =>
          refine Triple.bind (Q := fun record s => ∃ time, record = syncedMeta file time ∧
            Tracked env view t loose others (extra ++ [record]) rest s) (onWorld_triple fun s holds => ?_)
            fun record => ?_
          · obtain ⟨before, tracked, w, uploads, rfl, landed⟩ := holds.2 rfl
            refine (makeFileMeta_unmoved.weaken fun _ => Unmoved.of_eq).strengthen fun record next made => ?_
            obtain ⟨unmoved, time, rfl⟩ := made
            exact ⟨time, rfl, (tracked.uploaded uploads landed (.cons ⟨time, rfl⟩ .nil)).still unmoved⟩
          · refine Triple.bind (ih.weaken (P := Tracked env view t loose others (extra ++ [record]) rest)
              fun s holds => ?_) fun done =>
              Triple.ret fun s tracked => ?_
            · obtain ⟨-, -, tracked⟩ := holds
              exact tracked
            · simpa using tracked

theorem afterRefusedBatch_tracked {files : List PendingPushFile} :
    Triple (Tracked env view t loose files [] rest) (afterRefusedBatch env config files)
      (fun _ s => Tracked env view t loose [] [] rest s ∧ s.pendingMetadataUpdates = [])
      (fun _ s => LogTrue env view t.path t.log s.world) := by
  refine Triple.bind (pushSeparately_tracked spec injective readable same) fun done => ?_
  refine Triple.bind (Q := fun _ => Tracked env view t loose [] [] rest) (Triple.modify fun s tracked => ?_)
    fun _ => flushPendingMetadataUpdates_tracked
  exact tracked.handed _

theorem pushFiles_tracked {files : List PendingPushFile} :
    Triple (Tracked env view t loose files [] rest) (pushFiles env config files)
      (fun _ s => Tracked env view t loose [] [] rest s ∧ s.pendingMetadataUpdates = [])
      (fun _ s => LogTrue env view t.path t.log s.world) := by
  have whole : files ++ [] = files := List.append_nil files
  refine Triple.bind ((attemptUpload_tracked spec injective readable same).weaken
    (P := Tracked env view t loose (files ++ []) [] rest) fun _ tracked => whole.symm ▸ tracked) fun outcome => ?_
  rw [whole]
  cases outcome with
  | error error =>
      refine Triple.weaken (P := Tracked env view t loose files [] rest) ?_ fun s holds => holds.1 error rfl
      refine Triple.ite (fun _ => Triple.throw fun _ tracked => tracked.log) fun _ => ?_
      refine Triple.ite (fun _ => Triple.throw fun _ tracked => tracked.log) fun _ => ?_
      exact afterRefusedBatch_tracked spec injective readable same
  | ok _ =>
      refine Triple.bind (Q := fun metas => Tracked env view t loose [] metas rest)
        (onWorld_triple fun s holds => ?_) fun metas => ?_
      · obtain ⟨before, tracked, w, uploads, rfl, landed⟩ := holds.2 rfl
        rw [← whole] at tracked
        refine (makeFileMetas_unmoved.weaken fun _ => Unmoved.of_eq).strengthen fun metas next made => ?_
        exact (tracked.uploaded uploads landed made.2).still made.1
      · refine Triple.bind (Q := fun _ => Tracked env view t loose [] [] rest)
          (Triple.modify fun s tracked => tracked.handed files) fun _ => flushPendingMetadataUpdates_tracked

theorem flushPushBatch_tracked :
    Triple (Tracked env view t loose [] [] rest) (flushPushBatch env config)
      (fun _ s => Tracked env view t loose [] [] rest s ∧ s.pendingBatch.files = [])
      (fun _ s => LogTrue env view t.path t.log s.world) := by
  intro s tracked
  refine Triple.ite (P := (· = s)) (fun empty => ?_) (fun _ => ?_) s rfl
  · exact Triple.ret fun _ equal => by subst equal; exact ⟨tracked, empty⟩
  · refine Triple.bind (Q := fun _ u => u = s.tookBatch) (Triple.modify fun _ equal => by rw [equal]) fun _ => ?_
    have pushed := (pushFiles_tracked spec injective readable same).weaken (U := (· = s.tookBatch))
      (P := Tracked env view t loose s.pendingBatch.files [] rest) fun u equal => ?_
    have kept : Triple (fun u => u.pendingBatch = .empty) (pushFiles env config s.pendingBatch.files)
        (fun _ u => u.pendingBatch = .empty) (fun _ _ => True) := pushFiles_batch
    · exact (pushed.both (kept.weaken fun u equal => by rw [equal]; rfl)).conseq (fun _ => id) (fun _ u holds => ⟨holds.1.1, by rw [holds.2]; rfl⟩)
        fun _ _ holds => holds.1
    subst equal
    have queue : s.pendingBatch.files ++ s.tookBatch.pendingBatch.files = [] ++ s.pendingBatch.files := by
      simp [PushState.tookBatch, PushBatch.empty]
    refine ⟨tracked.disk, tracked.log, ?_, tracked.fresh, ?_, ?_⟩
    · rw [queue]
      exact tracked.carried
    · rw [queue]
      exact tracked.single
    · rw [queue]
      exact tracked.stage

theorem completeEntry_tracked :
    Triple (Tracked env view t loose [] [] rest) (completeEntry env config)
      (fun _ => Tracked env view t loose [] [] rest)
      (fun _ s => LogTrue env view t.path t.log s.world) := by
  refine Triple.bind (Q := fun _ => Tracked env view t loose [] [] rest)
    (Triple.modify fun s tracked => tracked.counted rfl rfl rfl (fun _ => rfl) id) fun _ => ?_
  refine Triple.bind (Q := fun _ => Tracked env view t loose [] [] rest) (Triple.get fun _ => id) fun s => ?_
  exact Triple.when (fun _ => (flushPushBatch_tracked spec injective readable same).strengthen
    fun _ _ holds => holds.1) fun _ _ tracked => tracked

end Uploads

end AeordbSync

import AeordbSync.Push.FocusRequest

namespace AeordbSync
open Characters OsPath FileSystem Effect

variable {ρ : Type} {env : Env ρ} {view : ρ → Text → Option RemoteEntry} {t : Target ρ}
  {rest : List PushFilePrepRequest} {s : PushState ρ} {hashPrefix : Text} {ctx : PushContext}
  {request : PushFilePrepRequest} {file : PendingPushFile}

theorem mem_queued {other : PendingPushFile} {config : BlobConfig} :
    other ∈ [] ++ (s.queued file config).pendingBatch.files ↔
      other ∈ [] ++ s.pendingBatch.files ∨ other = file := by
  simp [PushState.queued, PushBatch.push]

theorem mem_queueMeta {other record : FileSyncMeta} :
    other ∈ [] ++ (s.queueMeta record).pendingMetadataUpdates ↔
      other ∈ [] ++ s.pendingMetadataUpdates ∨ other = record := by
  simp [PushState.queueMeta]

/-- The file of the request joins the batch. -/
theorem Tracked.queued (tracked : Tracked env view t False [] [] (request :: rest) s)
    (candidate : Candidate env t request file) (config : BlobConfig) :
    Tracked env view t False [] [] rest (s.queued file config) where
  disk := tracked.disk
  log := tracked.log
  carried := by
    intro other inside path
    rcases mem_queued.mp inside with old | rfl
    · exact tracked.carried other old path
    · have own := candidate.path.symm.trans path
      exact candidate.own own (tracked.waits own).wanted
  fresh := tracked.fresh
  single := by
    have single := tracked.single
    simp only [List.nil_append, List.map_cons, List.count_append, List.count_cons, PushState.queued,
      PushBatch.push, List.map_append, List.map_nil, candidate.path, List.count_nil] at single ⊢
    omega
  stage := by
    by_cases own : request.remotePath = t.path
    · have waits := tracked.waits own
      refine .queued waits.wanted file ?_ (candidate.path.trans own) waits.quiet
      exact mem_queued.mpr (Or.inr rfl)
    · refine (tracked.drop own).stage.map id (fun clear => ⟨fun other inside => ?_, clear.2⟩) id
        (fun _ inside _ => inside) (fun _ inside _ => mem_queued.mpr (Or.inl inside))
        (fun _ inside _ => inside) rfl rfl (fun _ _ => rfl) id
      rcases mem_queued.mp inside with old | rfl
      · exact clear.1 other old
      · rwa [candidate.path]

/-- A record with the hash of the file is refreshed. -/
theorem Tracked.refreshed (tracked : Tracked env view t False [] [] (request :: rest) s)
    (candidate : Candidate env t request file) {record : FileSyncMeta}
    (stored : request.storedMeta = some record) (same : record.contentHash = file.contentHash) (time : Int) :
    Tracked env view t False [] [] rest (s.queueMeta (syncedMeta file time)) := by
  by_cases own : request.remotePath = t.path
  · have waits := tracked.waits own
    have carries := candidate.own own waits.wanted
    have held := waits.held record stored (same.trans carries.contentHash)
    refine tracked.advance rfl tracked.log rfl (fun other inside path => ?_)
      (.settled waits.wanted waits.clear held (Or.inl ⟨_, mem_queueMeta.mpr (Or.inr rfl),
        candidate.path.trans own⟩))
    rcases mem_queueMeta.mp inside with old | rfl
    · exact tracked.fresh other old path
    · exact carries.fresh time
  · have dropped := tracked.drop own
    have other : (syncedMeta file time).path ≠ t.path := by
      change file.remotePath ≠ t.path
      rwa [candidate.path]
    refine ⟨dropped.disk, dropped.log, dropped.carried, fun one inside path => ?_, dropped.single, ?_⟩
    · rcases mem_queueMeta.mp inside with old | rfl
      · exact dropped.fresh one old path
      · exact absurd path other
    · refine dropped.stage.map id id (fun quiet one inside => ?_) (fun _ inside _ => inside)
        (fun _ inside _ => inside) (fun _ inside _ => mem_queueMeta.mpr (Or.inl inside)) rfl rfl
        (fun _ _ => ?_) id
      · rcases mem_queueMeta.mp inside with old | rfl
        · exact quiet one old
        · exact other
      · simp only [sight, PushState.queueMeta, Records.find_set]
        exact if_neg (Ne.symm other)

/-- A record that already tells the truth is left as it is. -/
theorem Tracked.confirmed (tracked : Tracked env view t False [] [] (request :: rest) s)
    (candidate : Candidate env t request file) {record : FileSyncMeta}
    (stored : request.storedMeta = some record) (same : record.contentHash = file.contentHash)
    (current : needsHashSkipMetadataUpdate record file.fileSize file.modifiedAt = false) :
    Tracked env view t False [] [] rest s := by
  by_cases own : request.remotePath = t.path
  · have waits := tracked.waits own
    have carries := candidate.own own waits.wanted
    have hash := same.trans carries.contentHash
    have held := waits.held record stored hash
    simp only [needsHashSkipMetadataUpdate, ne_eq, decide_eq_false_iff_not, not_or, not_not] at current
    have fresh : t.Fresh env record :=
      ⟨hash, current.2.1.trans carries.fileSize, current.2.2.trans carries.modifiedAt, current.1⟩
    refine tracked.advance rfl tracked.log rfl tracked.fresh
      (.settled waits.wanted waits.clear held (Or.inr ⟨fun m found => ?_, fun apart => ?_⟩))
    · have equal := stored.symm.trans (waits.stored m found)
      rw [Option.some.injEq] at equal
      exact equal ▸ fresh
    · change s.world.store.files.find t.path ≠ none
      rw [waits.kept apart, stored]
      exact Option.some_ne_none _
  · exact tracked.drop own

theorem Tracked.perm {requests : List PushFilePrepRequest}
    (tracked : Tracked env view t False [] [] requests s) (perm : rest.Perm requests) :
    Tracked env view t False [] [] rest s where
  disk := tracked.disk
  log := tracked.log
  carried := tracked.carried
  fresh := tracked.fresh
  single := by
    have single := tracked.single
    rwa [List.count_append, ← (perm.map PushFilePrepRequest.remotePath).count_eq, ← List.count_append] at single
  stage := tracked.stage.map id
    (fun clear => ⟨clear.1, fun request inside => clear.2 request (perm.mem_iff.mp inside)⟩) id
    (fun _ inside _ => perm.mem_iff.mpr inside) (fun _ inside _ => inside) (fun _ inside _ => inside) rfl rfl
    (fun _ _ => rfl) id

section Files

variable (spec : EngineSpec env.digest hashPrefix env.engine view)
  (injective : Function.Injective env.digest)
  (readable : t.wanted → t.disk.read t.entry = .ok t.content)
  (same : ctx.config.chunkHashPrefix = hashPrefix)
include spec injective readable same

theorem failEntry_tracked {message : Text} :
    Triple (Tracked env view t False [] [] (request :: rest)) (failEntry env ctx message)
      (fun _ => Tracked env view t False [] [] rest)
      (fun _ s => LogTrue env view t.path t.log s.world) :=
  Triple.bind (Q := fun _ => Tracked env view t False [] [] rest)
    (Triple.modify fun _ tracked => tracked.abandoned message) fun _ =>
      completeEntry_tracked spec injective readable same

theorem skipEntry_tracked :
    Triple (Tracked env view t False [] [] rest) (skipEntry env ctx)
      (fun _ => Tracked env view t False [] [] rest)
      (fun _ s => LogTrue env view t.path t.log s.world) :=
  Triple.bind (Q := fun _ => Tracked env view t False [] [] rest)
    (Triple.modify fun _ tracked => tracked.counted rfl rfl rfl (fun _ => rfl) id) fun _ =>
      completeEntry_tracked spec injective readable same

theorem queueCandidate_tracked (candidate : Candidate env t request file) :
    Triple (Tracked env view t False [] [] (request :: rest)) (queueCandidate env ctx file)
      (fun _ => Tracked env view t False [] [] rest)
      (fun _ s => LogTrue env view t.path t.log s.world) := by
  refine Triple.bind (Q := fun _ => Tracked env view t False [] [] (request :: rest)) (Triple.get fun _ => id)
    fun before => ?_
  refine Triple.bind (Q := fun _ => Tracked env view t False [] [] (request :: rest))
    (Triple.when (fun _ => (flushPushBatch_tracked spec injective readable same).strengthen
      fun _ _ holds => holds.1) fun _ _ tracked => tracked) fun _ => ?_
  refine Triple.bind (Q := fun _ => Tracked env view t False [] [] rest)
    (Triple.modify fun _ tracked => tracked.queued candidate ctx.config) fun _ => ?_
  refine Triple.bind (Q := fun _ => Tracked env view t False [] [] rest) (Triple.get fun _ => id) fun after => ?_
  exact Triple.when (fun _ => (flushPushBatch_tracked spec injective readable same).strengthen
    fun _ _ holds => holds.1) fun _ _ tracked => tracked

theorem pushRecorded_tracked (candidate : Candidate env t request file) {record : FileSyncMeta}
    (stored : request.storedMeta = some record) :
    Triple (Tracked env view t False [] [] (request :: rest)) (pushRecorded env ctx record file)
      (fun _ => Tracked env view t False [] [] rest)
      (fun _ s => LogTrue env view t.path t.log s.world) := by
  refine Triple.ite (fun equal => Triple.ite (fun _ => ?_) fun current => ?_) fun _ => ?_
  · refine Triple.bind (tracked_quiet fun _ => makeFileMeta_unmoved) fun updated => ?_
    refine Triple.assume (fun _ holds => holds.2) fun made => ?_
    obtain ⟨time, rfl⟩ := made
    refine Triple.bind (Q := fun _ => Tracked env view t False [] [] rest) (Triple.modify fun s holds => ?_)
      fun _ => skipEntry_tracked spec injective readable same
    exact holds.1.refreshed candidate stored equal time
  · exact (skipEntry_tracked spec injective readable same).weaken fun s tracked =>
      tracked.confirmed candidate stored equal (by simpa using current)
  · exact Triple.bind (queueCandidate_tracked spec injective readable same candidate) fun _ =>
      completeEntry_tracked spec injective readable same

theorem pushUnrecorded_tracked (candidate : Candidate env t request file)
    (considerate : Considerate env t request) (unrecorded : request.storedMeta = none) :
    Triple (Tracked env view t False [] [] (request :: rest)) (pushUnrecorded env ctx request file)
      (fun _ => Tracked env view t False [] [] rest)
      (fun _ s => LogTrue env view t.path t.log s.world) := by
  have finish : Triple (Tracked env view t False [] [] rest) (completeEntry env ctx.config)
      (fun _ => Tracked env view t False [] [] rest) (fun _ s => LogTrue env view t.path t.log s.world) :=
    completeEntry_tracked spec injective readable same
  unfold pushUnrecorded
  rw [considerate.legacy]
  refine Triple.bind tryMove_none fun moved => ?_
  refine Triple.assume (fun _ holds => holds.1) fun still => ?_
  subst moved
  refine Triple.weaken (P := Tracked env view t False [] [] (request :: rest)) ?_ fun _ holds => holds.2
  refine Triple.bind (tryMove_tracked spec candidate considerate unrecorded) fun moved => ?_
  refine Triple.ite (fun done => finish.weaken fun s holds => holds.1 done) fun still => ?_
  refine Triple.weaken (P := Tracked env view t False [] [] (request :: rest)) ?_
    fun _ holds => holds.2 (by simpa using still)
  refine Triple.bind (tryTarget_tracked spec candidate considerate) fun present => ?_
  refine Triple.ite (fun done => finish.weaken fun s holds => holds.1 done) fun still => ?_
  refine Triple.weaken (P := Tracked env view t False [] [] (request :: rest)) ?_
    fun _ holds => holds.2 (by simpa using still)
  exact Triple.bind (queueCandidate_tracked spec injective readable same candidate) fun _ => finish

/-- Whatever its branch, a request takes its path one stage further and keeps every other path. -/
theorem pushRequest_tracked (considerate : Considerate env t request) :
    Triple (Tracked env view t False [] [] (request :: rest)) (pushRequest env ctx request)
      (fun _ => Tracked env view t False [] [] rest)
      (fun _ s => LogTrue env view t.path t.log s.world) := by
  refine Triple.bind (Q := fun r s => Tracked env view t False [] [] (request :: rest) s ∧
    ∀ hash size, r = .ok (hash, size) → ∃ content, t.disk.read request.entryPath = .ok content ∧
      hash = env.digest content ∧ size = content.length) (onWorld_triple fun s tracked => ?_) fun result => ?_
  · refine (hashFileContent_unmoved.weaken fun _ => Unmoved.of_eq).strengthen fun r w holds => ?_
    refine ⟨tracked.still holds.1, ?_⟩
    rw [← tracked.disk]
    exact holds.2
  rcases result with message | ⟨hash, size⟩
  · exact (failEntry_tracked spec injective readable same).weaken fun _ holds => holds.1
  · refine Triple.assume (fun _ holds => holds.2 hash size rfl) fun read => ?_
    obtain ⟨content, found, hashed, sized⟩ := read
    have candidate : Candidate env t request (candidateOf request hash size) := by
      refine ⟨rfl, ⟨content, found, hashed⟩, fun own wanted => ?_⟩
      obtain ⟨entry, modified⟩ := considerate.own own
      have equal : content = t.content := by
        have known := readable wanted
        rw [← entry, found] at known
        exact Except.ok.inj known
      subst content
      exact ⟨entry, hashed, sized, modified⟩
    refine Triple.weaken (P := Tracked env view t False [] [] (request :: rest)) ?_ fun _ holds => holds.1
    dsimp only
    cases stored : request.storedMeta with
    | some record => exact pushRecorded_tracked spec injective readable same candidate stored
    | none => exact pushUnrecorded_tracked spec injective readable same candidate considerate stored

/-- After the file phase nothing of the path is left undone. -/
theorem pushPreparedFiles_tracked {requests : List PushFilePrepRequest}
    (considerate : ∀ request ∈ requests, Considerate env t request) :
    Triple (fun s => s.filePrepRequests = requests ∧ Tracked env view t False [] [] requests s)
      (pushPreparedFiles env ctx)
      (fun _ s => Tracked env view t False [] [] [] s ∧ s.pendingBatch.files = [] ∧
        s.pendingMetadataUpdates = [])
      (fun _ s => LogTrue env view t.path t.log s.world) := by
  refine Triple.bind (Q := fun u s => u.filePrepRequests = requests ∧ Tracked env view t False [] [] requests s)
    (Triple.get fun _ => id) fun u => ?_
  refine Triple.assume (fun _ holds => holds.1) fun listed => ?_
  rw [listed]
  refine Triple.weaken (P := Tracked env view t False [] [] requests) ?_ fun _ holds => holds.2
  refine Triple.bind (tracked_quiet fun _ => arrange_unmoved) fun arranged => ?_
  refine Triple.assume (fun _ holds => holds.2) fun perm => ?_
  refine Triple.bind (Q := fun _ => Tracked env view t False [] [] []) ?_ fun _ => ?_
  · refine (Triple.forEach (Tracked env view t False [] []) arranged fun request rest suffix => ?_).weaken
      fun s holds => holds.1.perm perm
    have inside := suffix.subset (List.mem_cons_self ..)
    exact pushRequest_tracked spec injective readable same (considerate request (perm.mem_iff.mp inside))
  · refine Triple.bind (flushPushBatch_tracked spec injective readable same) fun _ => ?_
    have flushed : Triple (fun s => Tracked env view t False [] [] [] s ∧ s.pendingBatch.files = [])
        (flushPendingMetadataUpdates env) (fun _ s => Tracked env view t False [] [] [] s ∧
          s.pendingMetadataUpdates = []) (fun _ s => LogTrue env view t.path t.log s.world) :=
      flushPendingMetadataUpdates_tracked.weaken fun _ holds => holds.1
    have emptied : Triple (fun s => Tracked env view t False [] [] [] s ∧ s.pendingBatch.files = [])
        (flushPendingMetadataUpdates env) (fun _ s => s.pendingBatch.files = []) (fun _ _ => True) := by
      refine Triple.fix fun s holds => ?_
      have kept : Triple (fun u => u.pendingBatch = s.pendingBatch) (flushPendingMetadataUpdates env)
          (fun _ u => u.pendingBatch = s.pendingBatch) (fun _ _ => True) := flushPendingMetadataUpdates_batch
      exact kept.conseq (fun u equal => by rw [equal]) (fun _ u same => same ▸ holds.2) fun _ _ => id
    exact (flushed.both emptied).conseq (fun _ => id) (fun _ s holds => ⟨holds.1.1, holds.2, holds.1.2⟩) fun _ _ holds => holds.1

end Files

end AeordbSync

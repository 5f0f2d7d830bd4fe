import AeordbSync.Push.RunRules

namespace AeordbSync
open Characters OsPath FileSystem Effect

variable {ρ : Type} {env : Env ρ} {first : World ρ}

/-- In the metadata store only records are written, and the mark of a migration can be cleared. -/
structure RecordsOnly (first w : World ρ) : Prop where
  checkpoint : w.store.checkpoint = first.store.checkpoint
  migration : w.store.migration = first.store.migration ∨ w.store.migration = none

namespace RecordsOnly

variable {w next : World ρ}

theorem refl (first : World ρ) : RecordsOnly first first := ⟨rfl, Or.inl rfl⟩

theorem unmoved (kept : RecordsOnly first w) (still : Unmoved w next) : RecordsOnly first next := by
  refine ⟨?_, ?_⟩
  · rw [still.store]
    exact kept.checkpoint
  · rw [still.store]
    exact kept.migration

theorem quiet {α : Type} {x : Program ρ α} {F : World ρ → α → Prop}
    (still : ∀ w, Triple (Unmoved w) x (fun a next => Unmoved w next ∧ F w a) (fun _ => Unmoved w)) :
    Keeping (RecordsOnly first) x fun _ => True :=
  Triple.fix fun w kept => (still w).conseq (fun _ => .of_eq) (fun _ _ holds => ⟨kept.unmoved holds.1, trivial⟩)
    fun _ _ holds => kept.unmoved holds

theorem note {event : Event ρ} : Keeping (RecordsOnly first) (note event) fun _ => True :=
  note_triple fun _ kept => ⟨⟨kept.checkpoint, kept.migration⟩, trivial⟩

theorem callRemote {α : Type} {x : Proc ρ ClientError α} :
    Keeping (RecordsOnly first) (callRemote x) fun _ => True :=
  callRemote_triple (fun _ _ kept _ => ⟨⟨kept.checkpoint, kept.migration⟩, trivial⟩)
    fun _ _ kept _ => ⟨kept.checkpoint, kept.migration⟩

theorem makeFileMeta {file : PendingPushFile} : Keeping (RecordsOnly first) (makeFileMeta env file) fun _ => True :=
  quiet fun _ => makeFileMeta_unmoved

theorem setFileMetasBatch {metas : List FileSyncMeta} :
    Keeping (RecordsOnly first) (setFileMetasBatch env metas) fun _ => True :=
  setFileMetasBatch_triple (fun _ _ kept => ⟨kept, trivial⟩) (fun _ kept => ⟨⟨kept.checkpoint, kept.migration⟩, trivial⟩)
    fun _ _ kept => ⟨kept.checkpoint, kept.migration⟩

theorem deleteFileMeta {path : Text} : Keeping (RecordsOnly first) (deleteFileMeta env path) fun _ => True :=
  writeStore_triple (fun _ kept => ⟨⟨kept.checkpoint, kept.migration⟩, trivial⟩)
    fun _ _ kept => ⟨kept.checkpoint, kept.migration⟩

theorem clearPathMigration : Keeping (RecordsOnly first) (clearPathMigration env) fun _ => True :=
  writeStore_triple (fun _ kept => ⟨⟨kept.checkpoint, Or.inr rfl⟩, trivial⟩)
    fun _ _ kept => ⟨kept.checkpoint, kept.migration⟩

theorem pushBatchViaChunks {config : BlobConfig} {files : List PendingPushFile} :
    Keeping (RecordsOnly first) (pushBatchViaChunks env config files) fun _ => True := by
  refine Triple.fix fun w kept => ?_
  have uploads : Triple (Uploads (fun _ _ => none) (files.map PendingPushFile.remotePath) w)
      (AeordbSync.pushBatchViaChunks env config files)
      (fun _ => Uploads (fun _ _ => none) (files.map PendingPushFile.remotePath) w)
      (fun _ => Uploads (fun _ _ => none) (files.map PendingPushFile.remotePath) w) :=
    pushBatchViaChunks_uploads (EngineFrame.blind env.engine) fun file => List.mem_map_of_mem
  have same : ∀ next, Uploads (fun _ _ => none) (files.map PendingPushFile.remotePath) w next → RecordsOnly first next := by
    intro next holds
    refine ⟨?_, ?_⟩
    · rw [holds.store]
      exact kept.checkpoint
    · rw [holds.store]
      exact kept.migration
  exact uploads.conseq (fun next equal => by subst equal; exact Uploads.refl _) (fun _ next holds => ⟨same next holds, trivial⟩)
    fun _ next holds => same next holds

end RecordsOnly

/-- A step of the push writes only records. -/
def WritesRecords (first : World ρ) {α : Type} (x : PushProgram ρ α) : Prop :=
  Keeping (fun s => RecordsOnly first s.world) x fun _ => True

namespace WritesRecords

variable {α β : Type} {config : BlobConfig} {ctx : PushContext}

theorem bind {x : PushProgram ρ α} {f : α → PushProgram ρ β} (start : WritesRecords first x)
    (rest : ∀ a, WritesRecords first (f a)) : WritesRecords first (x >>= f) :=
  Keeping.bind start fun a _ => rest a

theorem ret (a : α) : WritesRecords first (pure a) := Keeping.ret trivial

theorem get {f : PushState ρ → PushProgram ρ β} (rest : ∀ s, WritesRecords first (f s)) :
    WritesRecords first (Proc.get >>= f) :=
  fun s kept => rest s s kept

theorem modify {f : PushState ρ → PushState ρ} (world : ∀ s, (f s).world = s.world) :
    WritesRecords first (Proc.modify f) :=
  Keeping.modify fun s kept => (world s).symm ▸ kept

theorem modified {f : PushState ρ → PushState ρ} {x : PushProgram ρ β} (world : ∀ s, (f s).world = s.world)
    (rest : WritesRecords first x) : WritesRecords first (Proc.modify f >>= fun _ => x) :=
  bind (modify world) fun _ => rest

theorem onWorld {x : Program ρ α} {F : α → Prop} (keeps : Keeping (RecordsOnly first) x F) :
    WritesRecords first (onWorld x) :=
  (Keeping.zoom (fun _ _ => rfl) keeps).weaken fun _ _ => trivial

theorem attempt {x : PushProgram ρ α} (writes : WritesRecords first x) : WritesRecords first (Proc.attempt x) :=
  (Keeping.attempt writes).weaken fun _ _ => trivial

theorem arrange {xs : List α} : WritesRecords first (AeordbSync.onWorld (arrange env xs)) :=
  onWorld (RecordsOnly.quiet fun _ => arrange_unmoved)

theorem flushPendingMetadataUpdates : WritesRecords first (flushPendingMetadataUpdates env) :=
  get fun _ => Keeping.ite (fun _ => ret _) fun _ =>
    modified (fun _ => rfl) <| onWorld RecordsOnly.setFileMetasBatch

theorem makeFileMetas {files : List PendingPushFile} : WritesRecords first (AeordbSync.onWorld (makeFileMetas env files)) :=
  onWorld (RecordsOnly.quiet fun _ => makeFileMetas_unmoved)

theorem recordPushFailure {file : PendingPushFile} {error : ClientError} :
    WritesRecords first (recordPushFailure env file error) := by
  refine bind (onWorld RecordsOnly.note) fun _ => Keeping.ite (fun _ => Keeping.throw) fun _ =>
    Keeping.ite (fun _ => Keeping.throw) fun _ => ?_
  refine modified (fun _ => rfl) <| Keeping.when fun _ => ?_
  exact bind (onWorld RecordsOnly.makeFileMeta) fun record =>
    bind (attempt (onWorld RecordsOnly.setFileMetasBatch)) fun _ => ret _

theorem pushSeparately {files : List PendingPushFile} : WritesRecords first (pushSeparately env config files) := by
  induction files with
  | nil => exact ret _
  | cons file rest ih =>
      refine bind (attempt (onWorld RecordsOnly.pushBatchViaChunks)) fun outcome => ?_
      cases outcome with
      | ok _ => exact bind (onWorld RecordsOnly.makeFileMeta) fun record => bind ih fun others => ret _
      | error error => exact bind recordPushFailure fun _ => ih

theorem pushFiles {files : List PendingPushFile} : WritesRecords first (pushFiles env config files) := by
  refine bind (attempt (onWorld RecordsOnly.pushBatchViaChunks)) fun outcome => ?_
  cases outcome with
  | ok _ => exact bind makeFileMetas fun metas => modified (fun _ => rfl) <| flushPendingMetadataUpdates
  | error error =>
      refine Keeping.ite (fun _ => Keeping.throw) fun _ => Keeping.ite (fun _ => Keeping.throw) fun _ => ?_
      exact bind pushSeparately fun done => modified (fun _ => rfl) <| flushPendingMetadataUpdates

theorem flushPushBatch : WritesRecords first (flushPushBatch env config) :=
  get fun _ => Keeping.ite (fun _ => ret _) fun _ => modified (fun _ => rfl) <| pushFiles

theorem completeEntry : WritesRecords first (completeEntry env config) :=
  modified (fun _ => rfl) <| get fun _ => Keeping.when fun _ => flushPushBatch

theorem skipEntry : WritesRecords first (skipEntry env ctx) := modified (fun _ => rfl) <| completeEntry

theorem failEntry {message : Text} : WritesRecords first (failEntry env ctx message) :=
  modified (fun _ => rfl) <| completeEntry

theorem attemptRemote {x : Proc ρ ClientError α} :
    WritesRecords first (Proc.attempt (AeordbSync.onWorld (callRemote x))) :=
  attempt (onWorld RecordsOnly.callRemote)

theorem tryMove {queryRoot : Text} {oldPath : Option Text} {file : PendingPushFile}
    {refused : Text → ClientError → PushProgram ρ Bool} (after : ∀ old error, WritesRecords first (refused old error)) :
    WritesRecords first (tryMove env queryRoot oldPath file refused) := by
  refine get fun s => ?_
  cases oldPath with
  | none => exact ret _
  | some oldPath =>
      dsimp only
      cases s.metadataByPath.find oldPath with
      | none => exact ret _
      | some source =>
          refine Keeping.ite (fun _ => bind attemptRemote fun answer => ?_) fun _ => ret _
          rcases answer with _ | _ | _
          · exact ret _
          · exact ret _
          · refine bind (onWorld RecordsOnly.note) fun _ => bind attemptRemote fun moved => ?_
            cases moved with
            | error error => exact after oldPath error
            | ok _ =>
                refine bind ?_ fun _ => ret _
                exact bind (onWorld RecordsOnly.makeFileMeta) fun record => bind (onWorld RecordsOnly.deleteFileMeta) fun _ =>
                  bind (onWorld RecordsOnly.setFileMetasBatch) fun _ => modify fun _ => rfl

theorem tryTarget {migration : Option SyncPathMigration} {oldPath : Option Text} {file : PendingPushFile} :
    WritesRecords first (tryTarget env migration oldPath file) := by
  cases migration with
  | none => exact ret _
  | some migration =>
      cases oldPath with
      | none => exact ret _
      | some oldPath =>
          refine bind attemptRemote fun answer => ?_
          rcases answer with _ | _ | _
          · exact ret _
          · exact ret _
          · refine bind (bind (onWorld RecordsOnly.makeFileMeta) fun record => ?_) fun _ => ret _
            refine bind (get fun _ => Keeping.ite (fun _ => ?_) fun _ => ret _) fun _ => ?_
            · exact bind (onWorld RecordsOnly.deleteFileMeta) fun _ => modify fun _ => rfl
            · exact bind (onWorld RecordsOnly.setFileMetasBatch) fun _ => modify fun _ => rfl

theorem queueCandidate {file : PendingPushFile} : WritesRecords first (queueCandidate env ctx file) :=
  get fun _ => bind (Keeping.when fun _ => flushPushBatch) fun _ =>
    modified (fun _ => rfl) <| get fun _ => Keeping.when fun _ => flushPushBatch

theorem pushUnrecorded {request : PushFilePrepRequest} {file : PendingPushFile} :
    WritesRecords first (pushUnrecorded env ctx request file) := by
  refine bind (tryMove fun _ _ => ret _) fun legacy => Keeping.ite (fun _ => completeEntry) fun _ => ?_
  refine bind (tryMove fun old error => modified (fun _ => rfl) <| ret _) fun moved =>
    Keeping.ite (fun _ => completeEntry) fun _ => ?_
  exact bind tryTarget fun present => Keeping.ite (fun _ => completeEntry) fun _ => bind queueCandidate fun _ => completeEntry

theorem pushRecorded {record : FileSyncMeta} {file : PendingPushFile} :
    WritesRecords first (pushRecorded env ctx record file) := by
  refine Keeping.ite (fun _ => Keeping.ite (fun _ => ?_) fun _ => skipEntry) fun _ => ?_
  · exact bind (onWorld RecordsOnly.makeFileMeta) fun updated => modified (fun _ => rfl) <| skipEntry
  · exact bind queueCandidate fun _ => completeEntry

theorem pushRequest {request : PushFilePrepRequest} : WritesRecords first (pushRequest env ctx request) := by
  refine bind (onWorld (RecordsOnly.quiet fun _ => hashFileContent_unmoved)) fun outcome => ?_
  rcases outcome with message | ⟨hash, size⟩
  · exact failEntry
  · dsimp only
    cases request.storedMeta with
    | some record => exact pushRecorded
    | none => exact pushUnrecorded

theorem pushSymlinks {links : List PendingSymlink} : WritesRecords first (pushSymlinks env ctx links) := by
  induction links with
  | nil => exact ret _
  | cons link rest ih =>
      have created : Keeping (RecordsOnly first) (createLink env link) fun _ => True :=
        Keeping.bind RecordsOnly.note fun _ _ => Keeping.bind RecordsOnly.callRemote fun _ _ => Keeping.ret trivial
      have one : Keeping (RecordsOnly first) (pushOneSymlink env ctx.mode link) fun _ => True := by
        refine Keeping.ite (fun _ => Keeping.bind (Keeping.attempt RecordsOnly.callRemote) fun answer _ => ?_)
          fun _ => created
        rcases answer with _ | _ | target
        · exact created
        · exact created
        · exact Keeping.ite (fun _ => Keeping.ret trivial) fun _ => created
      refine bind (attempt (onWorld one)) fun outcome => modified (fun _ => rfl) <| ?_
      cases outcome with
      | error error => exact modified (fun _ => rfl) <| ih
      | ok pushed =>
          refine bind (onWorld (RecordsOnly.quiet (F := fun _ _ => True) fun _ => now_unmoved.strengthen fun _ _ still =>
            ⟨still, trivial⟩)) fun time => ?_
          refine bind (modify fun s => ?_) fun _ => bind ih fun others => ret _
          split <;> rfl

theorem pushScanned : WritesRecords first (pushScanned env ctx) := by
  refine bind ?_ fun _ => bind ?_ fun _ => bind ?_ fun _ =>
    bind ?_ fun _ => ?_
  · exact get fun s => bind arrange fun requests => bind (Keeping.forEach fun _ _ => pushRequest) fun _ =>
      bind flushPushBatch fun _ => flushPendingMetadataUpdates
  · exact get fun s => bind arrange fun links => bind pushSymlinks fun updates => onWorld RecordsOnly.setFileMetasBatch
  · refine get fun s => ?_
    cases ctx.migration with
    | none => exact ret _
    | some migration =>
        refine Keeping.when fun _ => get fun s => bind arrange fun stale => Keeping.forEach fun path _ => ?_
        exact bind (onWorld RecordsOnly.deleteFileMeta) fun _ => modify fun _ => rfl
  · refine Keeping.when fun _ => get fun s => bind arrange fun recorded => Keeping.forEach fun path _ =>
      Keeping.when fun _ => bind (onWorld RecordsOnly.note) fun _ => bind attemptRemote fun outcome => ?_
    cases outcome with
    | error error => exact modify fun _ => rfl
    | ok _ => exact bind (onWorld RecordsOnly.deleteFileMeta) fun _ => modify fun _ => rfl
  · exact get fun s => Keeping.when fun _ => onWorld RecordsOnly.clearPathMigration

end WritesRecords

/-- A push only reads the disk. -/
theorem pushSync_disk (env : Env ρ) (relationship : SyncRelationship) (others : List SyncRelationship)
    (mode : PushScanMode) (w : World ρ) : (pushSync env relationship others mode w).2.disk = w.disk := by
  refine pushSync_framed (Q := fun next => next.disk = w.disk) (fun next begun => begun.disk) fun config l entries s ready => ?_
  refine ⟨fun _ => True, fun _ => True, fun _ => True, fun _ _ => ⟨trivial, fun _ _ => trivial, fun _ _ => trivial⟩,
    fun _ _ => trivial, fun _ _ _ _ => trivial, fun next framed => ?_⟩
  exact framed.disk.trans ready.begun.disk

/-- A push does not move the checkpoint, and it never marks a migration. -/
theorem pushSync_recordsOnly (env : Env ρ) (relationship : SyncRelationship) (others : List SyncRelationship)
    (mode : PushScanMode) (w : World ρ) : RecordsOnly w (pushSync env relationship others mode w).2 := by
  have run : Triple (· = w) (pushSync env relationship others mode) (fun _ => RecordsOnly w) (fun _ => RecordsOnly w) := by
    have begun : ∀ next, PushBegun env w next → RecordsOnly w next :=
      fun next begun => ⟨by rw [begun.store], Or.inl (by rw [begun.store])⟩
    refine pushSync_triple (fun _ => begun) fun config l entries s ready => ?_
    exact WritesRecords.pushScanned.conseq (fun t equal => equal ▸ begun _ ready.begun) (fun _ _ holds => holds.1)
      fun _ _ => id
  exact run.reached rfl

end AeordbSync

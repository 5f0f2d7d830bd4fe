import AeordbSync.Push.Frame

namespace AeordbSync
open Characters OsPath FileSystem Effect

variable {ρ : Type} {env : Env ρ} {own gone moved : Text → Prop} {base : PushState ρ}

theorem PushFramed.recordedAs {s next : PushState ρ} (framed : PushFramed own gone moved base s)
    (keys : ∀ path ∈ next.metadataByPath.paths, path ∈ s.metadataByPath.paths ∨ own path)
    (world : next.world = s.world) (batch : next.pendingBatch = s.pendingBatch)
    (updates : ∀ record ∈ next.pendingMetadataUpdates,
      record ∈ s.pendingMetadataUpdates ∨ own record.path)
    (seen : next.seenRemotePaths = s.seenRemotePaths)
    (requests : next.filePrepRequests = s.filePrepRequests)
    (links : next.pendingSymlinks = s.pendingSymlinks) (errors : s.errors ≠ [] → next.errors ≠ []) :
    PushFramed own gone moved base next where
  world := world ▸ framed.world
  seen := seen.trans framed.seen
  requests := requests.trans framed.requests
  links := links.trans framed.links
  errors := errors ∘ framed.errors
  keys := fun path inside => (keys path inside).elim (framed.keys path) Or.inr
  batch := batch ▸ framed.batch
  updates := fun record inside => (updates record inside).elim (framed.updates record) id

theorem makeFileMeta_keeps {file : PendingPushFile} :
    KeepsFrame own gone moved base (onWorld (makeFileMeta env file))
      fun record => ∃ time, record = syncedMeta file time :=
  keepsFrame_onWorld (quiet_frame fun _ => makeFileMeta_unmoved)

theorem set_keys {records : Records} {record : FileSyncMeta} (mine : own record.path) {path : Text}
    (inside : path ∈ (records.set record).paths) : path ∈ records.paths ∨ own path :=
  (Records.mem_paths_set inside).imp_right fun (same : path = record.path) => same ▸ mine

theorem setFileMeta_keeps {record : FileSyncMeta} (mine : own record.path) :
    KeepsFrame own gone moved base (onWorld (setFileMeta env record)) fun _ => True := by
  refine keepsFrame_onWorld (setFileMetasBatch_frame fun other inside => ?_)
  rwa [List.mem_singleton.mp inside]

theorem recordMove_frame {oldPath : Text} {file : PendingPushFile} (mine : own file.remotePath) :
    KeepsFrame own gone moved base (recordMove env oldPath file) fun _ => True := by
  refine keepsFrame_bind makeFileMeta_keeps fun record made => ?_
  obtain ⟨time, rfl⟩ := made
  refine keepsFrame_bind (keepsFrame_onWorld deleteFileMeta_frame) fun _ _ => ?_
  refine keepsFrame_bind (setFileMeta_keeps mine) fun _ _ => keepsFrame_modify fun s framed => ?_
  refine framed.recordedAs (fun path inside => ?_) rfl rfl (fun _ => Or.inl) rfl rfl rfl id
  rcases set_keys mine inside with old | fresh
  · exact Or.inl (Records.mem_paths_remove old).1
  · exact Or.inr fresh

/-- A call of the remote whose failure is caught changes only the remote. -/
theorem attempt_remote_frame {α : Type} {x : Proc ρ ClientError α} :
    KeepsFrame own gone moved base (Proc.attempt (onWorld (callRemote x))) fun _ => True :=
  (keepsFrame_attempt (onWorld_frame callRemote_frame)).strengthen fun _ _ holds => ⟨holds.1, trivial⟩

theorem tryMove_frame {queryRoot : Text} {oldPath : Option Text} {file : PendingPushFile}
    {refused : Text → ClientError → PushProgram ρ Bool} (mine : own file.remotePath)
    (former : ∀ old, oldPath = some old → moved old)
    (after : ∀ oldPath error, KeepsFrame own gone moved base (refused oldPath error) fun _ => True) :
    KeepsFrame own gone moved base (tryMove env queryRoot oldPath file refused) fun _ => True := by
  refine keepsFrame_get fun s _ => ?_
  cases oldPath with
  | none => exact keepsFrame_pure trivial
  | some oldPath =>
      dsimp only
      cases s.metadataByPath.find oldPath with
      | none => exact keepsFrame_pure trivial
      | some source =>
          refine keepsFrame_ite (fun _ => ?_) fun _ => keepsFrame_pure trivial
          refine keepsFrame_bind attempt_remote_frame fun answer _ => ?_
          rcases answer with _ | answer
          · exact keepsFrame_pure trivial
          · cases answer with
            | false => exact keepsFrame_pure trivial
            | true =>
                refine keepsFrame_bind (keepsFrame_onWorld (note_frame ⟨mine, former oldPath rfl⟩)) fun _ _ => ?_
                refine keepsFrame_bind attempt_remote_frame fun moved _ => ?_
                cases moved with
                | error error => exact after oldPath error
                | ok _ =>
                    exact keepsFrame_bind (recordMove_frame mine) fun _ _ => keepsFrame_pure trivial

theorem recordTarget_frame {oldPath : Text} {file : PendingPushFile} (mine : own file.remotePath) :
    KeepsFrame own gone moved base (recordTarget env oldPath file) fun _ => True := by
  refine keepsFrame_bind makeFileMeta_keeps fun record made => ?_
  obtain ⟨time, rfl⟩ := made
  have forget : KeepsFrame own gone moved base (forgetOldRecord env oldPath) fun _ => True := by
    refine keepsFrame_get fun s _ => keepsFrame_ite (fun _ => ?_) fun _ => keepsFrame_pure trivial
    refine keepsFrame_bind (keepsFrame_onWorld deleteFileMeta_frame) fun _ _ =>
      keepsFrame_modify fun s framed => ?_
    exact framed.recordedAs (fun path inside => Or.inl (Records.mem_paths_remove inside).1) rfl rfl
      (fun _ => Or.inl) rfl rfl rfl id
  refine keepsFrame_bind forget fun _ _ => keepsFrame_bind (setFileMeta_keeps mine) fun _ _ =>
    keepsFrame_modify fun s framed => ?_
  exact framed.recordedAs (fun path => set_keys mine) rfl rfl (fun _ => Or.inl) rfl rfl rfl id

theorem tryTarget_frame {migration : Option SyncPathMigration} {oldPath : Option Text}
    {file : PendingPushFile} (mine : own file.remotePath) :
    KeepsFrame own gone moved base (tryTarget env migration oldPath file) fun _ => True := by
  cases migration with
  | none => exact keepsFrame_pure trivial
  | some migration =>
      cases oldPath with
      | none => exact keepsFrame_pure trivial
      | some oldPath =>
          refine keepsFrame_bind attempt_remote_frame fun answer _ => ?_
          rcases answer with _ | answer
          · exact keepsFrame_pure trivial
          · cases answer with
            | false => exact keepsFrame_pure trivial
            | true => exact keepsFrame_bind (recordTarget_frame mine) fun _ _ => keepsFrame_pure trivial

theorem queueCandidate_frame {ctx : PushContext} {file : PendingPushFile} (mine : own file.remotePath) :
    KeepsFrame own gone moved base (queueCandidate env ctx file) fun _ => True := by
  refine keepsFrame_get fun s _ => ?_
  refine keepsFrame_bind (keepsFrame_when fun _ => flushPushBatch_frame) fun _ _ => ?_
  refine keepsFrame_bind (F := fun _ => True) ?_ fun _ _ => ?_
  · refine keepsFrame_modify fun s framed => { framed with batch := fun other inside => ?_ }
    rcases List.mem_append.mp inside with old | fresh
    · exact framed.batch other old
    · rwa [List.mem_singleton.mp fresh]
  · exact keepsFrame_get fun _ _ => keepsFrame_when fun _ => flushPushBatch_frame

/-- The path of the request belongs to the push, and its former paths may be moved. -/
structure OfRequest (own moved : Text → Prop) (request : PushFilePrepRequest) : Prop where
  own : own request.remotePath
  legacy : ∀ old, request.legacySeparatorRemotePath = some old → moved old
  migrated : ∀ old, request.migrationOldRemotePath = some old → moved old

theorem pushUnrecorded_frame {ctx : PushContext} {request : PushFilePrepRequest} {file : PendingPushFile}
    (mine : own file.remotePath) (asked : OfRequest own moved request) :
    KeepsFrame own gone moved base (pushUnrecorded env ctx request file) fun _ => True := by
  refine keepsFrame_bind (tryMove_frame mine asked.legacy fun _ _ => keepsFrame_pure trivial) fun legacy _ => ?_
  refine keepsFrame_ite (fun _ => completeEntry_frame) fun _ => ?_
  refine keepsFrame_bind (tryMove_frame mine asked.migrated fun oldPath error => ?_) fun moved _ => ?_
  · exact keepsFrame_bind (keepsFrame_modify fun s framed => framed.counted rfl rfl rfl rfl rfl rfl rfl
      fun _ => PushState.errors_failed _ _) fun _ _ => keepsFrame_pure trivial
  refine keepsFrame_ite (fun _ => completeEntry_frame) fun _ => ?_
  refine keepsFrame_bind (tryTarget_frame mine) fun present _ => ?_
  refine keepsFrame_ite (fun _ => completeEntry_frame) fun _ => ?_
  exact keepsFrame_bind (queueCandidate_frame mine) fun _ _ => completeEntry_frame

theorem pushRecorded_frame {ctx : PushContext} {record : FileSyncMeta} {file : PendingPushFile}
    (mine : own file.remotePath) :
    KeepsFrame own gone moved base (pushRecorded env ctx record file) fun _ => True := by
  refine keepsFrame_ite (fun _ => keepsFrame_ite (fun _ => ?_) fun _ => skipEntry_frame) fun _ => ?_
  · refine keepsFrame_bind makeFileMeta_keeps fun updated made => ?_
    obtain ⟨time, rfl⟩ := made
    refine keepsFrame_bind (F := fun _ => True) (keepsFrame_modify fun s framed => ?_)
      fun _ _ => skipEntry_frame
    refine framed.recordedAs (fun path => set_keys mine) rfl rfl (fun other inside => ?_) rfl rfl rfl id
    rcases List.mem_append.mp inside with old | fresh
    · exact Or.inl old
    · rw [List.mem_singleton.mp fresh]
      exact Or.inr mine
  · exact keepsFrame_bind (queueCandidate_frame mine) fun _ _ => completeEntry_frame

theorem pushRequest_frame {ctx : PushContext} {request : PushFilePrepRequest}
    (asked : OfRequest own moved request) :
    KeepsFrame own gone moved base (pushRequest env ctx request) fun _ => True := by
  refine keepsFrame_bind (F := fun _ => True) (keepsFrame_onWorld (quiet_frame fun _ =>
    hashFileContent_unmoved.strengthen fun _ _ holds => ⟨holds.1, trivial⟩)) fun outcome _ => ?_
  rcases outcome with message | ⟨hash, size⟩
  · exact failEntry_frame
  · dsimp only
    cases request.storedMeta with
    | some record => exact pushRecorded_frame asked.own
    | none => exact pushUnrecorded_frame asked.own asked

theorem pushPreparedFiles_frame {ctx : PushContext}
    (asked : ∀ request ∈ base.filePrepRequests, OfRequest own moved request) :
    KeepsFrame own gone moved base (pushPreparedFiles env ctx) fun _ => True := by
  refine keepsFrame_get fun s framed => ?_
  refine keepsFrame_bind (keepsFrame_onWorld (quiet_frame fun _ => arrange_unmoved)) fun requests perm => ?_
  refine keepsFrame_bind (keepsFrame_forEach fun request inside => pushRequest_frame (asked request ?_))
    fun _ _ => keepsFrame_bind flushPushBatch_frame fun _ _ => flushPendingMetadataUpdates_frame
  exact framed.requests ▸ perm.mem_iff.mp inside

theorem pushOneSymlink_frame {mode : PushScanMode} {link : PendingSymlink} {start : World ρ}
    (mine : own link.remotePath) :
    Triple (WorldFramed own gone moved start) (pushOneSymlink env mode link)
      (fun _ w => WorldFramed own gone moved start w ∧ True) (fun _ => WorldFramed own gone moved start) := by
  have created : Triple (WorldFramed own gone moved start) (createLink env link)
      (fun _ w => WorldFramed own gone moved start w ∧ True) (fun _ => WorldFramed own gone moved start) :=
    Triple.bind ((note_frame (show OfPush own gone moved (.linked link.remotePath) from mine)).strengthen
      fun _ _ holds => holds.1) fun _ =>
      Triple.bind (callRemote_frame.strengthen fun _ _ holds => holds.1) fun _ =>
        Triple.ret fun _ before => ⟨before, trivial⟩
  refine Triple.ite (fun _ => ?_) fun _ => created
  refine Triple.bind (Q := fun _ => WorldFramed own gone moved start) (Triple.attempt ?_) fun answer => ?_
  · exact callRemote_frame.strengthen fun _ _ holds => holds.1
  · rcases answer with _ | _ | target
    · exact created
    · exact created
    · exact Triple.ite (fun _ => Triple.ret fun _ before => ⟨before, trivial⟩) fun _ => created

theorem pushSymlinks_frame {ctx : PushContext} {links : List PendingSymlink}
    (mine : ∀ link ∈ links, own link.remotePath) :
    KeepsFrame own gone moved base (pushSymlinks env ctx links) fun done => ∀ record ∈ done, own record.path := by
  induction links with
  | nil => exact keepsFrame_pure fun record inside => by cases inside
  | cons link rest ih =>
      have here := mine link (List.mem_cons_self ..)
      have later := ih fun other inside => mine other (List.mem_cons_of_mem _ inside)
      refine keepsFrame_bind (keepsFrame_attempt (onWorld_frame (pushOneSymlink_frame here)))
        fun outcome _ => ?_
      refine keepsFrame_bind (keepsFrame_modify fun s framed => framed.counted rfl rfl rfl rfl rfl rfl rfl id)
        fun _ _ => ?_
      cases outcome with
      | error error =>
          exact keepsFrame_bind (keepsFrame_modify fun s framed => framed.counted rfl rfl rfl rfl rfl rfl rfl
            fun _ => PushState.errors_failed _ _) fun _ _ => later
      | ok pushed =>
          refine keepsFrame_bind (keepsFrame_onWorld (quiet_frame fun _ =>
            now_unmoved.strengthen fun _ _ unmoved => ⟨unmoved, trivial⟩)) fun time (_ : True) => ?_
          refine keepsFrame_bind (F := fun _ => True) (keepsFrame_modify fun s framed => ?_) fun _ _ => ?_
          · split <;> exact framed.recordedAs (fun path => set_keys here) rfl rfl (fun _ => Or.inl) rfl rfl rfl id
          · refine keepsFrame_bind later fun others recorded => keepsFrame_pure fun record inside => ?_
            rcases List.mem_cons.mp inside with rfl | among
            · exact here
            · exact recorded record among

theorem pushPendingSymlinks_frame {ctx : PushContext}
    (mine : ∀ link ∈ base.pendingSymlinks, own link.remotePath) :
    KeepsFrame own gone moved base (pushPendingSymlinks env ctx) fun _ => True := by
  refine keepsFrame_get fun s framed => ?_
  refine keepsFrame_bind (keepsFrame_onWorld (quiet_frame fun _ => arrange_unmoved)) fun links perm => ?_
  refine keepsFrame_bind (pushSymlinks_frame fun link inside => mine link ?_) fun updates recorded => ?_
  · exact framed.links ▸ perm.mem_iff.mp inside
  · exact keepsFrame_onWorld (setFileMetasBatch_frame fun record inside =>
      recorded record (mem_coalesceFileMetas inside))

theorem cleanupMigration_frame {ctx : PushContext} :
    KeepsFrame own gone moved base (cleanupMigration env ctx) fun _ => True := by
  refine keepsFrame_get fun s _ => ?_
  cases ctx.migration with
  | none => exact keepsFrame_pure trivial
  | some migration =>
      refine keepsFrame_when fun _ => keepsFrame_get fun s _ => ?_
      refine keepsFrame_bind (keepsFrame_onWorld (quiet_frame fun _ => arrange_unmoved)) fun stale _ => ?_
      refine keepsFrame_forEach fun path _ => ?_
      refine keepsFrame_bind (keepsFrame_onWorld deleteFileMeta_frame) fun _ _ =>
        keepsFrame_modify fun s framed => ?_
      exact framed.recordedAs (fun other inside => Or.inl (Records.mem_paths_remove inside).1) rfl rfl
        (fun _ => Or.inl) rfl rfl rfl id

theorem deleteRemote_frame {path : Text} (mine : gone path) :
    KeepsFrame own gone moved base (deleteRemote env path) fun _ => True := by
  refine keepsFrame_bind (keepsFrame_onWorld (note_frame mine)) fun _ _ => ?_
  refine keepsFrame_bind attempt_remote_frame fun outcome _ => ?_
  cases outcome with
  | error error =>
      exact keepsFrame_modify fun s framed => framed.counted rfl rfl rfl rfl rfl rfl rfl
        fun _ => PushState.errors_failed _ _
  | ok _ =>
      exact keepsFrame_bind (keepsFrame_onWorld deleteFileMeta_frame) fun _ _ =>
        keepsFrame_modify fun s framed => framed.counted rfl rfl rfl rfl rfl rfl rfl id

/-- Only recorded paths that were not seen are deleted. -/
theorem propagateDeletes_frame {ctx : PushContext}
    (mine : ∀ path, path ∈ base.metadataByPath.paths ∨ own path →
      isDeletedLocally ctx base.seenRemotePaths path = true → gone path) :
    KeepsFrame own gone moved base (propagateDeletes env ctx) fun _ => True := by
  refine keepsFrame_get fun s framed => ?_
  refine keepsFrame_bind (keepsFrame_onWorld (quiet_frame fun _ => arrange_unmoved)) fun recorded perm => ?_
  refine keepsFrame_forEach fun path inside => ?_
  refine keepsFrame_when fun deleted => deleteRemote_frame (mine path ?_ ?_)
  · exact framed.keys path (perm.mem_iff.mp inside)
  · rwa [← framed.seen]

theorem finishMigration_frame {ctx : PushContext} :
    KeepsFrame own gone moved base (finishMigration env ctx) fun _ => True := by
  refine keepsFrame_get fun s _ => keepsFrame_when fun _ => ?_
  refine keepsFrame_onWorld (writeStore_triple (fun w before => ⟨?_, trivial⟩)
    fun w _ before => before.unmoved (Unmoved.refl w).advance)
  exact before.logged [] (fun event inside => (List.not_mem_nil inside).elim) rfl
    (fun _ => Or.inl) rfl

theorem pushScanned_frame {ctx : PushContext}
    (requests : ∀ request ∈ base.filePrepRequests, OfRequest own moved request)
    (links : ∀ link ∈ base.pendingSymlinks, own link.remotePath)
    (deletes : ctx.relationship.deletePropagation.localToRemote = true →
      ∀ path, path ∈ base.metadataByPath.paths ∨ own path →
      isDeletedLocally ctx base.seenRemotePaths path = true → gone path) :
    KeepsFrame own gone moved base (pushScanned env ctx) fun _ => True := by
  refine keepsFrame_bind (pushPreparedFiles_frame requests) fun _ _ => ?_
  refine keepsFrame_bind (pushPendingSymlinks_frame links) fun _ _ => ?_
  refine keepsFrame_bind cleanupMigration_frame fun _ _ => ?_
  exact keepsFrame_bind (keepsFrame_when fun propagates => propagateDeletes_frame (deletes propagates))
    fun _ _ => finishMigration_frame

end AeordbSync

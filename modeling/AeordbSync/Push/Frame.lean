import AeordbSync.Push.Sync
import AeordbSync.Push.UploadRules

namespace AeordbSync
open Characters OsPath FileSystem Effect

variable {ρ : Type} {env : Env ρ}

/-- The effect belongs to a push of the named paths; deletions and moves have their own paths. -/
def OfPush (own gone moved : Text → Prop) : Event ρ → Prop
  | .committed paths => ∀ path ∈ paths, own path
  | .uploaded path => own path
  | .linked path => own path
  | .renamed source target => own target ∧ moved source
  | .deleted path => gone path
  | .uploadFailed path _ => own path
  | .recorded record _ => own record.path
  | .forgotten _ => True
  | .localChange .. => False

theorem OfUpload.ofPush {paths : List Text} {own gone moved : Text → Prop} {event : Event ρ}
    (upload : OfUpload paths event) (inside : ∀ path ∈ paths, own path) : OfPush own gone moved event := by
  cases event with
  | committed committed => exact fun path listed => inside path (upload path listed)
  | uploaded path => exact inside path upload
  | _ => exact upload.elim

/-- The disk is as it was, and what the run has written belongs to it. -/
structure WorldFramed (own gone moved : Text → Prop) (start next : World ρ) : Prop where
  disk : next.disk = start.disk
  stored : ∀ path ∈ next.store.files.paths, path ∈ start.store.files.paths ∨ own path
  log : ∃ new, next.log = new ++ start.log ∧ ∀ event ∈ new, OfPush own gone moved event

namespace WorldFramed

variable {own gone moved : Text → Prop} {start next last : World ρ}

theorem refl (start : World ρ) : WorldFramed own gone moved start start :=
  ⟨rfl, fun _ => Or.inl, ⟨[], rfl, by simp⟩⟩

theorem unmoved (framed : WorldFramed own gone moved start next) (still : Unmoved next last) :
    WorldFramed own gone moved start last := by
  refine ⟨still.disk.trans framed.disk, ?_, ?_⟩
  · rw [still.store]
    exact framed.stored
  · rw [still.log]
    exact framed.log

theorem called (framed : WorldFramed own gone moved start next) (remote : ρ) :
    WorldFramed own gone moved start { next with remote := remote } :=
  ⟨framed.disk, framed.stored, framed.log⟩

theorem logged (framed : WorldFramed own gone moved start next) (events : List (Event ρ))
    (mine : ∀ event ∈ events, OfPush own gone moved event) (same : last.disk = next.disk)
    (stored : ∀ path ∈ last.store.files.paths, path ∈ next.store.files.paths ∨ own path)
    (equal : last.log = events ++ next.log) : WorldFramed own gone moved start last := by
  obtain ⟨new, before, all⟩ := framed.log
  refine ⟨same.trans framed.disk, fun path inside => ?_, events ++ new, ?_, ?_⟩
  · rcases stored path inside with old | fresh
    · exact framed.stored path old
    · exact Or.inr fresh
  · rw [equal, before, List.append_assoc]
  · intro event inside
    rcases List.mem_append.mp inside with fresh | old
    · exact mine event fresh
    · exact all event old

end WorldFramed

/-- Nothing waits in the variables of the run that does not belong to it. -/
structure PushFramed (own gone moved : Text → Prop) (base s : PushState ρ) : Prop where
  world : WorldFramed own gone moved base.world s.world
  seen : s.seenRemotePaths = base.seenRemotePaths
  requests : s.filePrepRequests = base.filePrepRequests
  links : s.pendingSymlinks = base.pendingSymlinks
  errors : base.errors ≠ [] → s.errors ≠ []
  keys : ∀ path ∈ s.metadataByPath.paths, path ∈ base.metadataByPath.paths ∨ own path
  batch : ∀ file ∈ s.pendingBatch.files, own file.remotePath
  updates : ∀ record ∈ s.pendingMetadataUpdates, own record.path

/-- The program keeps the frame, and what it has done before a failure is framed too. -/
def KeepsFrame (own gone moved : Text → Prop) (base : PushState ρ) {α : Type}
    (x : PushProgram ρ α) (F : α → Prop) : Prop :=
  Triple (PushFramed own gone moved base) x
    (fun a s => PushFramed own gone moved base s ∧ F a)
    (fun _ s => WorldFramed own gone moved base.world s.world)

section Frame

variable {own gone moved : Text → Prop} {base : PushState ρ} {start : World ρ} {α : Type}

theorem keepsFrame_bind {β : Type} {x : PushProgram ρ α} {f : α → PushProgram ρ β} {F : α → Prop}
    {G : β → Prop} (first : KeepsFrame own gone moved base x F)
    (second : ∀ a, F a → KeepsFrame own gone moved base (f a) G) :
    KeepsFrame own gone moved base (x >>= f) G :=
  Triple.bind first fun a => Triple.assume (fun _ holds => holds.2) fun known =>
    (second a known).weaken fun _ holds => holds.1

theorem keepsFrame_pure {a : α} {F : α → Prop} (holds : F a) :
    KeepsFrame own gone moved base (pure a) F :=
  Triple.ret fun _ before => ⟨before, holds⟩

theorem keepsFrame_throw {e : ClientError} {F : α → Prop} :
    KeepsFrame own gone moved base (Proc.throw e) F :=
  Triple.throw fun _ before => before.world

theorem keepsFrame_ite {c : Prop} [Decidable c] {x y : PushProgram ρ α} {F : α → Prop}
    (yes : c → KeepsFrame own gone moved base x F) (no : ¬ c → KeepsFrame own gone moved base y F) :
    KeepsFrame own gone moved base (if c then x else y) F :=
  Triple.ite yes no

theorem keepsFrame_when {c : Prop} [Decidable c] {x : PushProgram ρ Unit}
    (yes : c → KeepsFrame own gone moved base x fun _ => True) :
    KeepsFrame own gone moved base (Proc.when c x) fun _ => True :=
  Triple.when yes fun _ _ before => ⟨before, trivial⟩

theorem keepsFrame_attempt {x : PushProgram ρ α} {F : α → Prop}
    (triple : Triple (PushFramed own gone moved base) x
      (fun a s => PushFramed own gone moved base s ∧ F a)
      (fun _ => PushFramed own gone moved base)) :
    KeepsFrame own gone moved base (Proc.attempt x) fun r => ∀ a, r = .ok a → F a := by
  refine Triple.attempt (triple.conseq (fun _ => id) (fun a s holds => ?_) fun e s holds => ?_)
  · refine ⟨holds.1, fun b equal => ?_⟩
    cases equal
    exact holds.2
  · exact ⟨holds, fun b equal => by cases equal⟩

theorem keepsFrame_forEach {ι : Type} {xs : List ι} {body : ι → PushProgram ρ Unit}
    (step : ∀ x ∈ xs, KeepsFrame own gone moved base (body x) fun _ => True) :
    KeepsFrame own gone moved base (Proc.forEach xs body) fun _ => True :=
  (Triple.forEach_keep _ xs fun x inside => (step x inside).strengthen fun _ _ holds => holds.1).strengthen
    fun _ _ holds => ⟨holds, trivial⟩

/-- Only the current state is looked at. -/
theorem keepsFrame_get {f : PushState ρ → PushProgram ρ α} {F : α → Prop}
    (next : ∀ s, PushFramed own gone moved base s → KeepsFrame own gone moved base (f s) F) :
    KeepsFrame own gone moved base (Proc.get >>= f) F := by
  intro s before
  exact next s before s before

theorem keepsFrame_modify {f : PushState ρ → PushState ρ}
    (keeps : ∀ s, PushFramed own gone moved base s → PushFramed own gone moved base (f s)) :
    KeepsFrame own gone moved base (Proc.modify f) fun _ => True :=
  Triple.modify fun s before => ⟨keeps s before, trivial⟩

theorem PushFramed.withWorld {s : PushState ρ} (framed : PushFramed own gone moved base s)
    {w : World ρ} (world : WorldFramed own gone moved base.world w) :
    PushFramed own gone moved base (s.withWorld w) :=
  { framed with world := world }

theorem onWorld_frame {x : Program ρ α} {F : α → Prop}
    (triple : Triple (WorldFramed own gone moved base.world) x
      (fun a w => WorldFramed own gone moved base.world w ∧ F a) (fun _ => WorldFramed own gone moved base.world)) :
    Triple (PushFramed own gone moved base) (onWorld x)
      (fun a s => PushFramed own gone moved base s ∧ F a)
      (fun _ => PushFramed own gone moved base) :=
  onWorld_triple fun _ framed => triple.conseq (fun _ equal => equal ▸ framed.world)
    (fun _ _ holds => ⟨framed.withWorld holds.1, holds.2⟩) fun _ _ holds => framed.withWorld holds

theorem keepsFrame_onWorld {x : Program ρ α} {F : α → Prop}
    (triple : Triple (WorldFramed own gone moved base.world) x
      (fun a w => WorldFramed own gone moved base.world w ∧ F a) (fun _ => WorldFramed own gone moved base.world)) :
    KeepsFrame own gone moved base (onWorld x) F :=
  (onWorld_frame triple).conseq (fun _ => id) (fun _ _ => id) fun _ _ holds => holds.world

theorem quiet_frame {x : Program ρ α} {F : α → Prop}
    (quiet : ∀ w, Triple (Unmoved w) x (fun a next => Unmoved w next ∧ F a) (fun _ => Unmoved w)) :
    Triple (WorldFramed own gone moved start) x (fun a w => WorldFramed own gone moved start w ∧ F a)
      (fun _ => WorldFramed own gone moved start) :=
  Triple.fix fun w before => (quiet w).conseq (fun _ => .of_eq)
    (fun _ _ holds => ⟨before.unmoved holds.1, holds.2⟩) fun _ _ holds => before.unmoved holds

theorem pushBatchViaChunks_frame {config : BlobConfig} {files : List PendingPushFile}
    (mine : ∀ file ∈ files, own file.remotePath) :
    Triple (WorldFramed own gone moved start) (pushBatchViaChunks env config files)
      (fun _ w => WorldFramed own gone moved start w ∧ True) (fun _ => WorldFramed own gone moved start) := by
  refine Triple.fix fun w before => ?_
  have uploads : Triple (Uploads (fun _ _ => none) (files.map PendingPushFile.remotePath) w)
      (pushBatchViaChunks env config files)
      (fun _ => Uploads (fun _ _ => none) (files.map PendingPushFile.remotePath) w)
      (fun _ => Uploads (fun _ _ => none) (files.map PendingPushFile.remotePath) w) :=
    pushBatchViaChunks_uploads (EngineFrame.blind env.engine) fun file => List.mem_map_of_mem
  have framed : ∀ next, Uploads (fun _ _ => none) (files.map PendingPushFile.remotePath) w next →
      WorldFramed own gone moved start next := by
    intro next holds
    obtain ⟨new, equal, all⟩ := holds.log
    refine before.logged new (fun event inside => (all event inside).ofPush ?_)
      holds.disk (fun path inside => Or.inl (holds.store ▸ inside)) equal
    intro path listed
    obtain ⟨file, present, rfl⟩ := List.mem_map.mp listed
    exact mine file present
  exact uploads.conseq (fun next equal => by subst equal; exact Uploads.refl _)
    (fun _ next holds => ⟨framed next holds, trivial⟩) fun _ next holds => framed next holds

theorem makeFileMeta_unmoved {file : PendingPushFile} {w : World ρ} {E : ClientError → World ρ → Prop} :
    Triple (Unmoved w) (makeFileMeta env file)
      (fun record next => Unmoved w next ∧ ∃ time, record = syncedMeta file time) E :=
  Triple.bind now_unmoved fun time => Triple.ret fun _ unmoved => ⟨unmoved, time, rfl⟩

/-- Each record is the record of the file in its place. -/
theorem makeFileMetas_unmoved {files : List PendingPushFile} {w : World ρ}
    {E : ClientError → World ρ → Prop} :
    Triple (Unmoved w) (makeFileMetas env files) (fun metas next => Unmoved w next ∧
      List.Forall₂ (fun file record => ∃ time, record = syncedMeta file time) files metas) E := by
  induction files with
  | nil => exact Triple.ret fun _ unmoved => ⟨unmoved, .nil⟩
  | cons file rest ih =>
      refine Triple.bind makeFileMeta_unmoved fun record => ?_
      refine Triple.assume (fun _ holds => holds.2) fun made => ?_
      refine Triple.bind (ih.weaken fun _ holds => holds.1) fun others => ?_
      exact Triple.ret fun _ holds => ⟨holds.1, .cons made holds.2⟩

theorem forall₂_own {files : List PendingPushFile} {metas : List FileSyncMeta}
    (made : List.Forall₂ (fun file record => ∃ time, record = syncedMeta file time) files metas)
    (mine : ∀ file ∈ files, own file.remotePath) : ∀ record ∈ metas, own record.path := by
  induction made with
  | nil => intro record inside; cases inside
  | @cons file _ _ _ head _ ih =>
      intro record inside
      rcases List.mem_cons.mp inside with rfl | later
      · obtain ⟨time, rfl⟩ := head
        exact mine file (List.mem_cons_self ..)
      · exact ih (fun other listed => mine other (List.mem_cons_of_mem _ listed)) record later

theorem setFileMetasBatch_frame {metas : List FileSyncMeta} (mine : ∀ record ∈ metas, own record.path) :
    Triple (WorldFramed own gone moved start) (setFileMetasBatch env metas)
      (fun _ w => WorldFramed own gone moved start w ∧ True) (fun _ => WorldFramed own gone moved start) := by
  refine setFileMetasBatch_triple (fun _ _ before => ⟨before, trivial⟩) (fun w before => ⟨?_, trivial⟩)
    fun w _ before => before.unmoved (Unmoved.refl w).advance
  refine before.logged (metas.map fun record => .recorded record w.remote) ?_ rfl ?_ rfl
  · intro event inside
    obtain ⟨record, listed, rfl⟩ := List.mem_map.mp inside
    exact mine record listed
  · intro path inside
    rcases Records.mem_paths_setAll inside with old | ⟨record, listed, rfl⟩
    · exact Or.inl old
    · exact Or.inr (mine record listed)

theorem deleteFileMeta_frame {path : Text} :
    Triple (WorldFramed own gone moved start) (deleteFileMeta env path)
      (fun _ w => WorldFramed own gone moved start w ∧ True) (fun _ => WorldFramed own gone moved start) := by
  refine writeStore_triple (fun w before => ⟨?_, trivial⟩)
    fun w _ before => before.unmoved (Unmoved.refl w).advance
  refine before.logged [.forgotten path] ?_ rfl ?_ rfl
  · intro event inside
    rw [List.mem_singleton.mp inside]
    exact trivial
  · exact fun other inside => Or.inl (Records.mem_paths_remove inside).1

theorem note_frame {event : Event ρ} (mine : OfPush own gone moved event) :
    Triple (WorldFramed own gone moved start) (note event)
      (fun _ w => WorldFramed own gone moved start w ∧ True) (fun _ => WorldFramed own gone moved start) := by
  refine note_triple fun w before => ⟨before.logged [event] ?_ rfl (fun _ => Or.inl) rfl, trivial⟩
  intro other inside
  rwa [List.mem_singleton.mp inside]

theorem callRemote_frame {α : Type} {x : Proc ρ ClientError α} :
    Triple (WorldFramed own gone moved start) (callRemote x)
      (fun _ w => WorldFramed own gone moved start w ∧ True) (fun _ => WorldFramed own gone moved start) :=
  callRemote_triple (fun _ _ before _ => ⟨before.called _, trivial⟩) fun _ _ before _ => before.called _

theorem PushState.errors_failed (message : Text) (s : PushState ρ) : (s.failed message).errors ≠ [] := by
  simp [PushState.failed]

theorem PushFramed.counted {s next : PushState ρ} (framed : PushFramed own gone moved base s)
    (world : next.world = s.world) (keys : next.metadataByPath = s.metadataByPath)
    (batch : next.pendingBatch = s.pendingBatch)
    (updates : next.pendingMetadataUpdates = s.pendingMetadataUpdates)
    (seen : next.seenRemotePaths = s.seenRemotePaths)
    (requests : next.filePrepRequests = s.filePrepRequests)
    (links : next.pendingSymlinks = s.pendingSymlinks) (errors : s.errors ≠ [] → next.errors ≠ []) :
    PushFramed own gone moved base next where
  world := world ▸ framed.world
  seen := seen.trans framed.seen
  requests := requests.trans framed.requests
  links := links.trans framed.links
  errors := errors ∘ framed.errors
  keys := keys ▸ framed.keys
  batch := batch ▸ framed.batch
  updates := updates ▸ framed.updates

theorem flushPendingMetadataUpdates_frame :
    KeepsFrame own gone moved base (flushPendingMetadataUpdates env) fun _ => True := by
  refine keepsFrame_get fun s before => keepsFrame_ite (fun _ => keepsFrame_pure trivial) fun _ => ?_
  refine keepsFrame_bind (keepsFrame_modify fun _ framed =>
    { framed with updates := fun _ inside => (List.not_mem_nil inside).elim }) fun _ _ => ?_
  exact keepsFrame_onWorld (setFileMetasBatch_frame fun record inside =>
    before.updates record (mem_coalesceFileMetas inside))

theorem PushFramed.uploaded {s : PushState ρ} (framed : PushFramed own gone moved base s)
    {files : List PendingPushFile} {metas : List FileSyncMeta} (mine : ∀ record ∈ metas, own record.path) :
    PushFramed own gone moved base (s.uploaded files metas) := by
  refine { framed with keys := fun path inside => ?_, updates := fun record inside => ?_ }
  · rcases Records.mem_paths_setAll inside with old | ⟨record, listed, rfl⟩
    · exact framed.keys path old
    · exact Or.inr (mine record listed)
  · rcases List.mem_append.mp inside with old | fresh
    · exact framed.updates record old
    · exact mine record fresh

theorem suppressRetry_frame {file : PendingPushFile} (mine : own file.remotePath) :
    KeepsFrame own gone moved base (suppressRetry env file) fun _ => True := by
  refine keepsFrame_bind (keepsFrame_onWorld (quiet_frame fun _ => makeFileMeta_unmoved)) fun record made => ?_
  obtain ⟨time, rfl⟩ := made
  refine keepsFrame_bind (keepsFrame_attempt (onWorld_frame (setFileMetasBatch_frame ?_)))
    fun _ _ => keepsFrame_pure trivial
  intro record inside
  rwa [List.mem_singleton.mp inside]

theorem recordPushFailure_frame {file : PendingPushFile} {error : ClientError}
    (mine : own file.remotePath) :
    KeepsFrame own gone moved base (recordPushFailure env file error) fun _ => True := by
  refine keepsFrame_bind (keepsFrame_onWorld (note_frame mine)) fun _ _ => ?_
  refine keepsFrame_ite (fun _ => keepsFrame_throw) fun _ =>
    keepsFrame_ite (fun _ => keepsFrame_throw) fun _ => ?_
  refine keepsFrame_bind (keepsFrame_modify fun _ framed => framed.counted rfl rfl rfl rfl rfl rfl rfl
    fun _ => PushState.errors_failed _ _) fun _ _ => ?_
  exact keepsFrame_when fun _ => suppressRetry_frame mine

variable {config : BlobConfig}

theorem pushSeparately_frame {files : List PendingPushFile} (mine : ∀ file ∈ files, own file.remotePath) :
    KeepsFrame own gone moved base (pushSeparately env config files)
      fun done => ∀ pair ∈ done, own pair.2.path := by
  induction files with
  | nil => exact keepsFrame_pure fun pair inside => by cases inside
  | cons file rest ih =>
      have here := mine file (List.mem_cons_self ..)
      have later := ih fun other inside => mine other (List.mem_cons_of_mem _ inside)
      refine keepsFrame_bind (keepsFrame_attempt (onWorld_frame (pushBatchViaChunks_frame
        (by simpa using here)))) fun outcome _ => ?_
      cases outcome with
      | error error => exact keepsFrame_bind (recordPushFailure_frame here) fun _ _ => later
      | ok _ =>
          refine keepsFrame_bind (keepsFrame_onWorld (quiet_frame fun _ => makeFileMeta_unmoved))
            fun record made => keepsFrame_bind later fun others rest => keepsFrame_pure ?_
          obtain ⟨time, rfl⟩ := made
          intro pair inside
          rcases List.mem_cons.mp inside with rfl | among
          · exact here
          · exact rest pair among

theorem pushFiles_frame {files : List PendingPushFile} (mine : ∀ file ∈ files, own file.remotePath) :
    KeepsFrame own gone moved base (pushFiles env config files) fun _ => True := by
  refine keepsFrame_bind (keepsFrame_attempt (onWorld_frame (pushBatchViaChunks_frame mine)))
    fun outcome _ => ?_
  cases outcome with
  | ok _ =>
      refine keepsFrame_bind (keepsFrame_onWorld (quiet_frame fun _ => makeFileMetas_unmoved))
        fun metas made => keepsFrame_bind (keepsFrame_modify fun _ framed =>
          framed.uploaded (forall₂_own made mine)) fun _ _ => flushPendingMetadataUpdates_frame
  | error error =>
      refine keepsFrame_ite (fun _ => keepsFrame_throw) fun _ =>
        keepsFrame_ite (fun _ => keepsFrame_throw) fun _ => ?_
      refine keepsFrame_bind (pushSeparately_frame mine) fun done recorded => ?_
      refine keepsFrame_bind (keepsFrame_modify fun _ framed => framed.uploaded ?_)
        fun _ _ => flushPendingMetadataUpdates_frame
      intro record inside
      obtain ⟨pair, listed, rfl⟩ := List.mem_map.mp inside
      exact recorded pair listed

theorem flushPushBatch_frame :
    KeepsFrame own gone moved base (flushPushBatch env config) fun _ => True := by
  refine keepsFrame_get fun s before => keepsFrame_ite (fun _ => keepsFrame_pure trivial) fun _ => ?_
  refine keepsFrame_bind (keepsFrame_modify fun _ framed =>
    { framed with batch := fun _ inside => (List.not_mem_nil inside).elim }) fun _ _ => ?_
  exact pushFiles_frame before.batch

theorem completeEntry_frame :
    KeepsFrame own gone moved base (completeEntry env config) fun _ => True := by
  refine keepsFrame_bind (keepsFrame_modify fun _ framed => framed.counted rfl rfl rfl rfl rfl rfl rfl id) fun _ _ => ?_
  exact keepsFrame_get fun _ _ => keepsFrame_when fun _ => flushPushBatch_frame

theorem failEntry_frame {ctx : PushContext} {message : Text} :
    KeepsFrame own gone moved base (failEntry env ctx message) fun _ => True :=
  keepsFrame_bind (keepsFrame_modify fun _ framed => framed.counted rfl rfl rfl rfl rfl rfl rfl
    fun _ => PushState.errors_failed _ _) fun _ _ => completeEntry_frame

theorem skipEntry_frame {ctx : PushContext} :
    KeepsFrame own gone moved base (skipEntry env ctx) fun _ => True :=
  keepsFrame_bind (keepsFrame_modify fun _ framed => framed.counted rfl rfl rfl rfl rfl rfl rfl id)
    fun _ _ => completeEntry_frame

end Frame

end AeordbSync

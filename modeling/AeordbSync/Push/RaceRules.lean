import AeordbSync.Push.Race
import AeordbSync.Push.ScanRules
import AeordbSync.Reference

namespace AeordbSync
open Characters OsPath FileSystem Effect

variable {ρ α : Type} {env : Env ρ} {view : ρ → Text → Option RemoteEntry} {hashPrefix : Text}

/-- A call that the engine answers with an error has changed nothing. -/
structure EngineRefuses (engine : Engine ρ) (view : ρ → Text → Option RemoteEntry) : Prop where
  createSymlink_error : ∀ path target s error, (engine.createSymlink path target s).1 = .error error →
    view (engine.createSymlink path target s).2 = view s
  blobCommit_error : ∀ files s error, (engine.blobCommit files s).1 = .error error →
    view (engine.blobCommit files s).2 = view s
  uploadFile_error : ∀ path bytes contentType s error, (engine.uploadFile path bytes contentType s).1 = .error error →
    view (engine.uploadFile path bytes contentType s).2 = view s
  deleteFile_error : ∀ path s error, (engine.deleteFile path s).1 = .error error →
    view (engine.deleteFile path s).2 = view s
  renameFile_error : ∀ source target s error, (engine.renameFile source target s).1 = .error error →
    view (engine.renameFile source target s).2 = view s

/-- The shelf answers with an error only where it has changed nothing. -/
theorem Shelf.refuses (config : BlobConfig) : EngineRefuses (Shelf.engine config) Shelf.entries := by
  constructor
  · intro path target s error refused
    cases refused
  · intro files s error refused
    simp only [Shelf.engine] at refused ⊢
    split at refused
    · cases refused
    next unknown => rw [if_neg unknown]
  · intro path bytes contentType s error refused
    cases refused
  · intro path s error refused
    simp only [Shelf.engine] at refused ⊢
    split at refused
    · cases refused
    next missing => rw [if_neg missing]
  · intro source target s error refused
    simp only [Shelf.engine] at refused ⊢
    split at refused
    · rfl
    · cases refused

/-- Every call of the state database succeeds. -/
def StoreAccepts (env : Env ρ) : Prop := ∀ tick, env.storeFault tick = none

/-- What the decisions to skip a file rest on is as it was, but for what the remote holds at these paths. -/
structure Unaffected (view : ρ → Text → Option RemoteEntry) (paths : List Text) (s t : PushState ρ) : Prop where
  disk : t.world.disk = s.world.disk
  files : t.world.store.files = s.world.store.files
  there : ∀ path ∉ paths, view t.world.remote path = view s.world.remote path
  mirror : t.metadataByPath = s.metadataByPath
  pending : t.pendingMetadataUpdates = s.pendingMetadataUpdates

namespace Unaffected

variable {paths : List Text} {s t next : PushState ρ}

theorem refl (s : PushState ρ) : Unaffected view paths s s := ⟨rfl, rfl, fun _ _ => rfl, rfl, rfl⟩

theorem still (alike : Unaffected view paths s t) {w : World ρ} (unmoved : Unmoved t.world w) :
    Unaffected view paths s (t.withWorld w) where
  disk := unmoved.disk.trans alike.disk
  files := (congrArg MetadataStore.files unmoved.store).trans alike.files
  there path outside := (congrFun (congrArg view unmoved.remote) path).trans (alike.there path outside)
  mirror := alike.mirror
  pending := alike.pending

theorem called (alike : Unaffected view paths s t) {remote : ρ}
    (other : ∀ path ∉ paths, view remote path = view t.world.remote path) :
    Unaffected view paths s (t.withWorld { t.world with remote := remote }) :=
  { alike with there := fun path outside => (other path outside).trans (alike.there path outside) }

/-- Counters and errors do not matter. -/
theorem counted (alike : Unaffected view paths s t) (world : next.world = t.world)
    (mirror : next.metadataByPath = t.metadataByPath)
    (pending : next.pendingMetadataUpdates = t.pendingMetadataUpdates) : Unaffected view paths s next where
  disk := (congrArg World.disk world).trans alike.disk
  files := by rw [world, alike.files]
  there := by
    rw [world]
    exact alike.there
  mirror := mirror.trans alike.mirror
  pending := pending.trans alike.pending

theorem view_eq (alike : Unaffected view [] s t) : view t.world.remote = view s.world.remote :=
  funext fun path => alike.there path List.not_mem_nil

theorem more (alike : Unaffected view [] s t) (paths : List Text) : Unaffected view paths s t :=
  { alike with there := fun path _ => alike.there path List.not_mem_nil }

variable (view) in
/-- What a program that keeps all this has returned. -/
theorem reached {x : PushProgram ρ α} {F : α → Prop}
    (triple : Triple (Unaffected view [] s) x (fun a t => Unaffected view [] s t ∧ F a) (fun _ => Unaffected view [] s))
    {r : Except ClientError α} (answer : x s = (r, t)) : Unaffected view [] s t ∧ ∀ a, r = .ok a → F a := by
  have outcome := triple s (refl s)
  rw [answer] at outcome
  cases r with
  | error error => exact ⟨outcome, fun _ impossible => by cases impossible⟩
  | ok a =>
      refine ⟨outcome.1, fun b equal => ?_⟩
      cases equal
      exact outcome.2

end Unaffected

/-- The record of a file has been written where the remote holds its content, and another path may have lost its
record. -/
structure Refiled (env : Env ρ) (view : ρ → Text → Option RemoteEntry) (old : Text) (file : PendingPushFile)
    (s t : PushState ρ) : Prop where
  disk : t.world.disk = s.world.disk
  pending : t.pendingMetadataUpdates = s.pendingMetadataUpdates
  other : ∀ path, path ≠ old → path ≠ file.remotePath → view t.world.remote path = view s.world.remote path ∧
    t.world.store.files.find path = s.world.store.files.find path ∧
    t.metadataByPath.find path = s.metadataByPath.find path
  own : ∃ time, t.world.store.files.find file.remotePath = some (syncedMeta file time)
  held : Holds env.digest (view t.world.remote) file.remotePath file.contentHash
  left : old ≠ file.remotePath → t.metadataByPath.find old = none ∧
    (t.world.store.files.find old = none ∨ t.world.store.files.find old = s.world.store.files.find old ∧
      s.metadataByPath.find old = none ∧ view t.world.remote old = view s.world.remote old)

section Store

variable (accepts : StoreAccepts env)
include accepts

theorem writeStore_accepted {f : MetadataStore → MetadataStore} {events : ρ → List (Event ρ)} {P : World ρ → Prop}
    {Q : Unit → World ρ → Prop} {E : ClientError → World ρ → Prop}
    (written : ∀ w, P w → Q () { w.advance with store := f w.store, log := events w.remote ++ w.log }) :
    Triple P (writeStore env f events) Q E := by
  intro w before
  unfold writeStore
  rw [accepts w.tick]
  exact written w before

theorem setFileMeta_accepted {record : FileSyncMeta} {P : World ρ → Prop} {Q : Unit → World ρ → Prop}
    {E : ClientError → World ρ → Prop}
    (written : ∀ w, P w → Q () { w.advance with
      store := { w.store with files := w.store.files.set record }
      log := .recorded record w.remote :: w.log }) : Triple P (setFileMeta env record) Q E := by
  unfold setFileMeta setFileMetasBatch
  rw [if_neg (List.cons_ne_nil _ _)]
  exact writeStore_accepted accepts written

end Store

section Quiet

variable {paths : List Text} {s : PushState ρ}

theorem quiet_unaffected {x : Program ρ α} {F : Tree → α → Prop} {E : ClientError → PushState ρ → Prop}
    (quiet : ∀ w, Triple (Unmoved w) x (fun a next => Unmoved w next ∧ F w.disk a) (fun _ _ => False)) :
    Triple (Unaffected view paths s) (onWorld x) (fun a t => Unaffected view paths s t ∧ F s.world.disk a) E := by
  refine onWorld_triple fun t alike => (quiet t.world).conseq (fun _ => .of_eq) (fun a next holds => ?_)
    fun _ _ impossible => impossible.elim
  exact ⟨alike.still holds.1, alike.disk ▸ holds.2⟩

theorem makeFileMeta_unaffected {file : PendingPushFile} {E : ClientError → PushState ρ → Prop} :
    Triple (Unaffected view paths s) (onWorld (makeFileMeta env file))
      (fun record t => Unaffected view paths s t ∧ ∃ time, record = syncedMeta file time) E :=
  quiet_unaffected (F := fun _ record => ∃ time, record = syncedMeta file time) fun _ =>
    Triple.bind now_unmoved fun time => Triple.ret fun _ unmoved => ⟨unmoved, time, rfl⟩

theorem note_unaffected {event : Event ρ} {E : ClientError → PushState ρ → Prop} :
    Triple (Unaffected view paths s) (onWorld (note event)) (fun _ => Unaffected view paths s) E := by
  refine onWorld_triple fun t alike => note_triple fun w equal => ?_
  subst equal
  exact ⟨alike.disk, alike.files, alike.there, alike.mirror, alike.pending⟩

theorem fileMtime_unaffected {path : PathBuf} {E : ClientError → PushState ρ → Prop} :
    Triple (Unaffected view paths s) (onWorld (fileMtime env path)) (fun r t => Unaffected view paths s t ∧
      ∀ mtime, r = .ok mtime → s.world.disk.modified path = .ok mtime) E :=
  quiet_unaffected (F := fun disk r => ∀ mtime, r = .ok mtime → disk.modified path = .ok mtime) fun _ =>
    fileMtime_unmoved.strengthen fun _ _ holds => ⟨holds.1, fun mtime equal => (holds.2 mtime equal).1⟩

theorem readFile_unaffected {path : PathBuf} {E : ClientError → PushState ρ → Prop} :
    Triple (Unaffected view paths s) (onWorld (readFile env path)) (fun r t => Unaffected view paths s t ∧
      ∀ content, r = .ok content → s.world.disk.read path = .ok content) E :=
  quiet_unaffected (F := fun disk (r : Except Text Bytes) => ∀ content, r = .ok content → disk.read path = .ok content)
    fun _ => readFile_unmoved

theorem symlinkMetadata_unaffected {path : PathBuf} {E : ClientError → PushState ρ → Prop} :
    Triple (Unaffected view paths s)
      (onWorld (readDisk env .symlinkMetadata path fun disk => disk.metadata false path))
      (fun r t => Unaffected view paths s t ∧ ∀ node, r = .ok node → s.world.disk.metadata false path = .ok node) E := by
  refine quiet_unaffected (F := fun disk (r : Except IoError Node) => ∀ node, r = .ok node →
    disk.metadata false path = .ok node) fun _ => readDisk_unmoved.strengthen fun r _ holds =>
    ⟨holds.1, fun node equal => ?_⟩
  rcases holds.2 with found | ⟨error, tick, found, -⟩
  · exact found.symm.trans equal
  · rw [equal] at found
    cases found

theorem readLink_unaffected {path : PathBuf} {E : ClientError → PushState ρ → Prop} :
    Triple (Unaffected view paths s) (onWorld (readDisk env .readLink path fun disk => disk.readLink path))
      (fun _ t => Unaffected view paths s t ∧ True) E :=
  quiet_unaffected (F := fun _ (_ : Except IoError OsText) => True) fun _ =>
    readDisk_unmoved.strengthen fun _ _ holds => ⟨holds.1, trivial⟩

theorem metadataMtimeOrNow_unaffected {modified : Int} {E : ClientError → PushState ρ → Prop} :
    Triple (Unaffected view paths s) (onWorld (metadataMtimeOrNow env modified)) (fun _ t => Unaffected view paths s t ∧ True) E :=
  quiet_unaffected (F := fun _ _ => True) fun _ => metadataMtimeOrNow_unmoved

theorem now_unaffected {E : ClientError → PushState ρ → Prop} :
    Triple (Unaffected view paths s) (onWorld (now env)) (fun _ t => Unaffected view paths s t ∧ True) E :=
  quiet_unaffected (F := fun _ _ => True) fun _ => now_unmoved.strengthen fun _ _ unmoved => ⟨unmoved, trivial⟩

theorem planFileChunks_unaffected {file : PendingPushFile} {config : BlobConfig} {E : ClientError → PushState ρ → Prop} :
    Triple (Unaffected view paths s) (onWorld (planFileChunks env file config)) (fun r t => Unaffected view paths s t ∧
      ∀ planned, r = .ok planned → Planned env config file (commitFileOf file planned.chunkHashes)) E :=
  quiet_unaffected (F := fun _ (r : Except Text PlannedFileChunks) => ∀ planned, r = .ok planned →
    Planned env config file (commitFileOf file planned.chunkHashes)) fun _ => planFileChunks_unmoved

/-- A failure that is not taken for an answer 403 is only counted, or it ends the push. -/
theorem recordPushFailure_unaffected {file : PendingPushFile} {error : ClientError}
    (allowed : isForbidden file.remotePath error = false) :
    Triple (Unaffected view paths s) (recordPushFailure env file error) (fun _ => Unaffected view paths s)
      (fun _ t => Unaffected view paths s t ∧ (isTransientPushError error || isUnrecoverablePushError error) = true) := by
  refine Triple.seq note_unaffected ?_
  refine Triple.ite (fun transient => Triple.throw fun _ alike => ⟨alike, by rw [transient]; rfl⟩) fun _ => ?_
  refine Triple.ite (fun lasting => Triple.throw fun _ alike => ⟨alike, by rw [lasting, Bool.or_true]⟩) fun _ => ?_
  refine Triple.seq (Triple.modify fun _ alike => alike.counted rfl rfl rfl) ?_
  refine Triple.when (fun forbidden => ?_) fun _ _ alike => alike
  rw [allowed] at forbidden
  cases forbidden

end Quiet

section Calls

variable {s : PushState ρ} (spec : EngineSpec env.digest hashPrefix env.engine view)
include spec

theorem uploadPendingChunk_unaffected {chunk : PendingChunkRef} {hashPrefix : Text} :
    Triple (Unaffected view [] s) (onWorld (uploadPendingChunk env hashPrefix chunk)) (fun _ => Unaffected view [] s)
      (fun _ => Unaffected view [] s) := by
  have arrived : ∀ {t : PushState ρ} {w : World ρ}, Unaffected view [] s t → Uploads view [] t.world w →
      Unaffected view [] s (t.withWorld w) := by
    intro t w alike uploads
    exact ⟨uploads.disk.trans alike.disk, (congrArg MetadataStore.files uploads.store).trans alike.files,
      fun path outside => (uploads.other path outside).trans (alike.there path outside), alike.mirror, alike.pending⟩
  refine onWorld_triple fun t alike => (uploadPendingChunk_uploads spec.toEngineFrame).conseq ?_
    (fun _ _ uploads => arrived alike uploads) fun _ _ uploads => arrived alike uploads
  rintro w rfl
  exact Uploads.refl _

/-- A true answer names the content that the remote holds. -/
theorem query_unaffected {root path hash : Text} {E : ClientError → PushState ρ → Prop} :
    Triple (Unaffected view [] s) (Proc.attempt (onWorld (callRemote
    (env.engine.remotePathHasContentHash root path hash))))
      (fun r t => Unaffected view [] s t ∧ (r = .ok true →
        ∃ content, view s.world.remote path = some (.file content) ∧ env.digest content = hash)) E := by
  refine Triple.attempt (onWorld_triple fun t alike => callRemote_triple (fun w a equal answer => ?_)
    fun w e equal _ => ?_)
  · subst equal
    have same := spec.remotePathHasContentHash_view root path hash t.world.remote
    refine ⟨alike.called fun other _ => congrFun same other, fun yes => ?_⟩
    rw [Except.ok.inj yes] at answer
    obtain ⟨content, present, digest⟩ := spec.remotePathHasContentHash_ok _ _ _ _ answer
    exact ⟨content, (alike.there path List.not_mem_nil).symm.trans present, digest⟩
  · subst equal
    have same := spec.remotePathHasContentHash_view root path hash t.world.remote
    exact ⟨alike.called fun other _ => congrFun same other, fun yes => by cases yes⟩

variable (refuses : EngineRefuses env.engine view)
include refuses

/-- A direct upload leaves at its path what it has read, or it fails and leaves all as it was. -/
theorem pushFileDirectly_puts {file : PendingPushFile} :
    Triple (Unaffected view [] s) (onWorld (pushFileDirectly env file))
      (fun _ t => Unaffected view [file.remotePath] s t ∧ ∃ body, s.world.disk.read file.localPath = .ok body ∧
        view t.world.remote file.remotePath = some (.file body)) (fun _ => Unaffected view [] s) := by
  refine onWorld_triple fun t alike => ?_
  have back : ∀ w, Unmoved t.world w → Unaffected view [] s (t.withWorld w) := fun w => alike.still
  have noted : ∀ w event, Unaffected view [] s (t.withWorld w) →
      Unaffected view [] s (t.withWorld { w with log := event :: w.log }) :=
    fun _ _ before => ⟨before.disk, before.files, before.there, before.mirror, before.pending⟩
  refine Triple.bind (Q := fun _ w => Unaffected view [] s (t.withWorld w)) (orFail_triple ?_) fun _ => ?_
  · refine (openFile_unmoved (w := t.world) (E := fun _ _ => False)).conseq (fun _ => .of_eq) (fun r w unmoved => ?_)
      fun _ _ impossible => impossible.elim
    cases r <;> exact back w unmoved
  refine Triple.bind (Q := fun _ w => Unaffected view [] s (t.withWorld w))
    (note_triple fun w before => noted w _ before) fun _ => ?_
  refine Triple.bind (Q := fun body w => Unaffected view [] s (t.withWorld w) ∧
    ∀ bytes, body = .ok bytes → s.world.disk.read file.localPath = .ok bytes) ?_ fun body => ?_
  · refine readDisk_triple fun w before => ⟨⟨before.disk, before.files, before.there, before.mirror, before.pending⟩, ?_⟩
    intro bytes equal
    have disk : w.disk = s.world.disk := before.disk
    unfold Env.faulty at equal
    split at equal
    · cases equal
    · rwa [disk] at equal
  cases body with
  | error error => exact Triple.throw fun _ holds => holds.1
  | ok bytes =>
      refine callRemote_triple (fun w _ holds answer => ?_) fun w error holds answer => ?_
      · have moved := spec.uploadFile_other file.remotePath bytes file.contentType w.remote
        refine ⟨⟨holds.1.disk, holds.1.files, fun path outside => ?_, holds.1.mirror, holds.1.pending⟩,
          bytes, holds.2 bytes rfl, spec.uploadFile_ok _ _ _ _ answer⟩
        exact (moved path fun same => outside (List.mem_singleton.mpr same)).trans
          (holds.1.there path List.not_mem_nil)
      · have same := refuses.uploadFile_error _ _ _ _ _ answer
        exact ⟨holds.1.disk, holds.1.files, fun path outside => (congrFun same path).trans
          (holds.1.there path outside), holds.1.mirror, holds.1.pending⟩

/-- A symlink that was pushed is on the remote, in the form in which the engine stores targets. -/
theorem pushOneSymlink_links {link : PendingSymlink} {mode : PushScanMode}
    (identity : link.contentHash = symlinkIdentityHash env.digest link.remotePath link.target) :
    Triple (Unaffected view [] s) (onWorld (pushOneSymlink env mode link))
      (fun _ t => Unaffected view [link.remotePath] s t ∧ ∃ stored,
        view t.world.remote link.remotePath = some (.symlink stored) ∧
        symlinkIdentityHash env.digest link.remotePath stored = link.contentHash) (fun _ => Unaffected view [] s) := by
  refine onWorld_triple fun t alike => ?_
  have created : Triple (fun w => Unaffected view [] s (t.withWorld w)) (createLink env link)
      (fun _ w => Unaffected view [link.remotePath] s (t.withWorld w) ∧ ∃ stored,
        view w.remote link.remotePath = some (.symlink stored) ∧
        symlinkIdentityHash env.digest link.remotePath stored = link.contentHash)
      (fun _ w => Unaffected view [] s (t.withWorld w)) := by
    refine Triple.bind (Q := fun _ w => Unaffected view [] s (t.withWorld w)) (note_triple fun w before =>
      ⟨before.disk, before.files, before.there, before.mirror, before.pending⟩) fun _ => ?_
    refine Triple.bind (callRemote_triple (fun w _ before answer => ?_) fun w error before answer => ?_)
      fun _ => Triple.ret fun _ holds => holds
    · obtain ⟨stored, present, same⟩ := spec.createSymlink_ok _ _ _ answer
      refine ⟨(before.more _).called fun path outside => ?_, stored, present, ?_⟩
      · exact spec.createSymlink_other _ _ _ path fun equal => outside (List.mem_singleton.mpr equal)
      · rw [identity]
        simp only [symlinkIdentityHash, symlinkIdentityText, same]
    · exact before.called fun path _ => congrFun (refuses.createSymlink_error _ _ _ _ answer) path
  refine Triple.weaken (P := fun w => Unaffected view [] s (t.withWorld w)) ?_ fun w equal => equal ▸ alike
  refine Triple.ite (fun _ => ?_) fun _ => created
  refine Triple.bind (Q := fun answer w => Unaffected view [] s (t.withWorld w) ∧ ∀ target, answer = .ok (some target) →
    view w.remote link.remotePath = some (.symlink target)) (Triple.attempt (callRemote_triple
      (fun w a before answer => ⟨?_, fun target equal => ?_⟩) fun w e before _ => ⟨?_, fun target equal => ?_⟩))
    fun answer => ?_
  · exact before.called fun path _ => congrFun (spec.remoteSymlinkTarget_view _ _) path
  · rw [Except.ok.inj equal] at answer
    exact (congrFun (spec.remoteSymlinkTarget_view _ _) _).trans (spec.remoteSymlinkTarget_ok _ _ _ answer)
  · exact before.called fun path _ => congrFun (spec.remoteSymlinkTarget_view _ _) path
  · cases equal
  · rcases answer with _ | _ | target
    · exact created.weaken fun _ holds => holds.1
    · exact created.weaken fun _ holds => holds.1
    · refine Triple.ite (fun equal => Triple.ret fun w holds => ?_) fun _ => created.weaken fun _ holds => holds.1
      exact ⟨holds.1.more _, target, holds.2 target rfl, equal⟩

end Calls

section Records

variable {s : PushState ρ} {file : PendingPushFile} (accepts : StoreAccepts env)
include accepts

theorem recordMove_refiles {old : Text} {E : ClientError → PushState ρ → Prop}
    (apart : old ≠ file.remotePath) :
    Triple (fun t => Unaffected view [old, file.remotePath] s t ∧
        Holds env.digest (view t.world.remote) file.remotePath file.contentHash)
      (recordMove env old file) (fun _ => Refiled env view old file s) E := by
  refine Triple.fix fun first ready => ?_
  obtain ⟨alike, held⟩ := ready
  have begun : ∀ t, t = first → Unaffected view [] first t := by
    rintro t rfl
    exact Unaffected.refl _
  refine Triple.bind (makeFileMeta_unaffected.weaken begun) fun record => ?_
  refine Triple.assume (fun _ holds => holds.2) fun made => ?_
  obtain ⟨time, rfl⟩ := made
  refine Triple.seq (M := fun t => t.world.disk = first.world.disk ∧ view t.world.remote = view first.world.remote ∧
    t.world.store.files = first.world.store.files.remove old ∧ t.metadataByPath = first.metadataByPath ∧
    t.pendingMetadataUpdates = first.pendingMetadataUpdates) ?_ ?_
  · refine onWorld_triple fun t holds => writeStore_accepted accepts fun w equal => ?_
    subst equal
    exact ⟨holds.1.disk, holds.1.view_eq, congrArg (·.remove old) holds.1.files, holds.1.mirror, holds.1.pending⟩
  refine Triple.seq (M := fun t => t.world.disk = first.world.disk ∧ view t.world.remote = view first.world.remote ∧
    t.world.store.files = (first.world.store.files.remove old).set (syncedMeta file time) ∧
    t.metadataByPath = first.metadataByPath ∧ t.pendingMetadataUpdates = first.pendingMetadataUpdates) ?_ ?_
  · refine onWorld_triple fun t holds => setFileMeta_accepted accepts fun w equal => ?_
    subst equal
    exact ⟨holds.1, holds.2.1, congrArg (·.set (syncedMeta file time)) holds.2.2.1, holds.2.2.2⟩
  refine Triple.modify fun t holds => ?_
  obtain ⟨disk, there, files, mirror, pending⟩ := holds
  have own : (syncedMeta file time).path = file.remotePath := rfl
  constructor
  · exact disk.trans alike.disk
  · exact pending.trans alike.pending
  · intro path notOld notOwn
    refine ⟨(congrFun there path).trans (alike.there path (by simp [notOld, notOwn])), ?_, ?_⟩
    · show t.world.store.files.find path = _
      rw [files, Records.find_set, own, if_neg notOwn, Records.find_remove, if_neg notOld, alike.files]
    · show ((t.metadataByPath.remove old).set (syncedMeta file time)).find path = _
      rw [Records.find_set, own, if_neg notOwn, Records.find_remove, if_neg notOld, mirror, alike.mirror]
  · refine ⟨time, ?_⟩
    show t.world.store.files.find file.remotePath = _
    rw [files, Records.find_set, own, if_pos rfl]
  · exact held.congr (congrFun there _)
  · intro _
    constructor
    · show ((t.metadataByPath.remove old).set (syncedMeta file time)).find old = none
      rw [Records.find_set, own, if_neg apart, Records.find_remove, if_pos rfl]
    · apply Or.inl
      show t.world.store.files.find old = none
      rw [files, Records.find_set, own, if_neg apart, Records.find_remove, if_pos rfl]

/-- The old record is dropped only where the copy of the records has it. -/
theorem recordTarget_refiles {old : Text} {E : ClientError → PushState ρ → Prop} :
    Triple (fun t => Unaffected view [] s t ∧ Holds env.digest (view t.world.remote) file.remotePath file.contentHash)
      (recordTarget env old file) (fun _ t => Refiled env view old file s t ∧ view t.world.remote = view s.world.remote)
      E := by
  refine Triple.bind (Q := fun record t => Unaffected view [] s t ∧
    Holds env.digest (view s.world.remote) file.remotePath file.contentHash ∧ ∃ time, record = syncedMeta file time) ?_
    fun record => ?_
  · refine Triple.fix fun first ready => (makeFileMeta_unaffected.weaken (U := (· = first)) fun t equal =>
      (equal ▸ ready.1 : Unaffected view [] s t)).strengthen fun _ t holds => ⟨holds.1, ?_, holds.2⟩
    rw [← ready.1.view_eq]
    exact ready.2
  refine Triple.assume (fun _ holds => holds.2.2) fun made => ?_
  obtain ⟨time, rfl⟩ := made
  refine Triple.assume (fun _ holds => holds.2.1) fun held => ?_
  have own : (syncedMeta file time).path = file.remotePath := rfl
  refine Triple.seq (M := fun t => t.world.disk = s.world.disk ∧ view t.world.remote = view s.world.remote ∧
    t.pendingMetadataUpdates = s.pendingMetadataUpdates ∧
    (∀ path, t.metadataByPath.find path = if path = old then none else s.metadataByPath.find path) ∧
    (t.world.store.files = s.world.store.files.remove old ∨
      t.world.store.files = s.world.store.files ∧ s.metadataByPath.find old = none)) ?_ ?_
  · refine Triple.bind (Q := fun u t => u = t ∧ Unaffected view [] s t) (Triple.get fun t holds => ⟨rfl, holds.1⟩) fun u => ?_
    refine Triple.ite (fun _ => ?_) fun missing => ?_
    · refine Triple.seq (M := fun t => t.world.disk = s.world.disk ∧ view t.world.remote = view s.world.remote ∧
        t.pendingMetadataUpdates = s.pendingMetadataUpdates ∧ t.metadataByPath = s.metadataByPath ∧
        t.world.store.files = s.world.store.files.remove old) ?_ ?_
      · refine onWorld_triple fun t holds => writeStore_accepted accepts fun w equal => ?_
        subst equal
        exact ⟨holds.2.disk, holds.2.view_eq, holds.2.pending, holds.2.mirror, congrArg (·.remove old) holds.2.files⟩
      · refine Triple.modify fun t holds => ⟨holds.1, holds.2.1, holds.2.2.1, fun path => ?_, Or.inl holds.2.2.2.2⟩
        show (t.metadataByPath.remove old).find path = _
        rw [Records.find_remove, holds.2.2.2.1]
    · refine Triple.ret fun t holds => ?_
      obtain ⟨rfl, alike⟩ := holds
      rw [Bool.not_eq_true, Option.isSome_eq_false_iff, Option.isNone_iff_eq_none, alike.mirror] at missing
      refine ⟨alike.disk, alike.view_eq, alike.pending, fun path => ?_, Or.inr ⟨alike.files, missing⟩⟩
      rw [alike.mirror]
      split
      next same => rw [same, missing]
      next => rfl
  refine Triple.seq (M := fun t => t.world.disk = s.world.disk ∧ view t.world.remote = view s.world.remote ∧
    t.pendingMetadataUpdates = s.pendingMetadataUpdates ∧
    (∀ path, t.metadataByPath.find path = if path = old then none else s.metadataByPath.find path) ∧
    (t.world.store.files = (s.world.store.files.remove old).set (syncedMeta file time) ∨
      t.world.store.files = s.world.store.files.set (syncedMeta file time) ∧ s.metadataByPath.find old = none)) ?_ ?_
  · refine onWorld_triple fun t holds => setFileMeta_accepted accepts fun w equal => ?_
    subst equal
    refine ⟨holds.1, holds.2.1, holds.2.2.1, holds.2.2.2.1, holds.2.2.2.2.imp ?_ (And.imp_left ?_)⟩
    · exact congrArg fun files : Records => files.set (syncedMeta file time)
    · exact congrArg fun files : Records => files.set (syncedMeta file time)
  refine Triple.modify fun t holds => ?_
  obtain ⟨disk, there, pending, mirror, files⟩ := holds
  have copy : ∀ path, path ≠ file.remotePath → (t.metadataByPath.set (syncedMeta file time)).find path =
      if path = old then none else s.metadataByPath.find path := by
    intro path notOwn
    rw [Records.find_set, own, if_neg notOwn, mirror]
  refine ⟨⟨disk, pending, fun path notOld notOwn => ⟨congrFun there path, ?_, ?_⟩, ⟨time, ?_⟩,
    held.congr (congrFun there _), fun apart => ⟨?_, ?_⟩⟩, there⟩
  · show t.world.store.files.find path = _
    rcases files with equal | ⟨equal, -⟩
    · rw [equal, Records.find_set, own, if_neg notOwn, Records.find_remove, if_neg notOld]
    · rw [equal, Records.find_set, own, if_neg notOwn]
  · exact (copy path notOwn).trans (if_neg notOld)
  · show t.world.store.files.find file.remotePath = _
    rcases files with equal | ⟨equal, -⟩ <;> rw [equal, Records.find_set, own, if_pos rfl]
  · exact (copy old apart).trans (if_pos rfl)
  · show t.world.store.files.find old = none ∨ t.world.store.files.find old = _ ∧ _
    rcases files with equal | ⟨equal, unknown⟩
    · rw [equal, Records.find_set, own, if_neg apart, Records.find_remove, if_pos rfl]
      exact Or.inl rfl
    · rw [equal, Records.find_set, own, if_neg apart]
      exact Or.inr ⟨rfl, unknown, congrFun there old⟩

variable (view) in
/-- The updates that wait are written together. -/
theorem flushPendingMetadataUpdates_writes {E : ClientError → PushState ρ → Prop} :
    Triple (· = s) (flushPendingMetadataUpdates env) (fun _ t => t.world.disk = s.world.disk ∧
      view t.world.remote = view s.world.remote ∧ t.metadataByPath = s.metadataByPath ∧
      t.pendingMetadataUpdates = [] ∧
      t.world.store.files = s.world.store.files.setAll (coalesceFileMetas s.pendingMetadataUpdates)) E := by
  refine Triple.bind (Q := fun u t => u = s ∧ t = s) (Triple.get fun t equal => ⟨equal, equal⟩) fun u => ?_
  refine Triple.assume (fun _ holds => holds.1) fun equal => ?_
  subst equal
  refine Triple.ite (fun none => Triple.ret fun t holds => ?_) fun some => ?_
  · obtain ⟨-, rfl⟩ := holds
    refine ⟨rfl, rfl, rfl, none, ?_⟩
    rw [none]
    rfl
  refine Triple.seq (M := fun t => t = u.tookUpdates) (Triple.modify fun t holds => by rw [holds.2]) ?_
  refine onWorld_triple fun t equal => ?_
  subst equal
  unfold setFileMetasBatch
  refine Triple.ite (fun empty => Triple.ret fun w equal => ?_) fun _ => writeStore_accepted accepts fun w equal => ?_
  · subst equal
    refine ⟨rfl, rfl, rfl, rfl, ?_⟩
    rw [empty]
    rfl
  · subst equal
    exact ⟨rfl, rfl, rfl, rfl, rfl⟩

variable (view) in
theorem dropStaleRecord_drops (path : Text) {E : ClientError → PushState ρ → Prop} :
    Triple (· = s) (dropStaleRecord env path) (fun _ t => t.world.disk = s.world.disk ∧
      view t.world.remote = view s.world.remote ∧ t.pendingMetadataUpdates = s.pendingMetadataUpdates ∧
      t.world.store.files = s.world.store.files.remove path) E := by
  refine Triple.seq (M := fun t => t.world.disk = s.world.disk ∧ view t.world.remote = view s.world.remote ∧
    t.pendingMetadataUpdates = s.pendingMetadataUpdates ∧ t.world.store.files = s.world.store.files.remove path) ?_
    (Triple.modify fun _ => id)
  refine onWorld_triple fun t equal => writeStore_accepted accepts fun w same => ?_
  subst equal same
  exact ⟨rfl, rfl, rfl, rfl⟩

theorem clearPathMigration_unaffected {E : ClientError → PushState ρ → Prop} :
    Triple (Unaffected view [] s) (onWorld (clearPathMigration env)) (fun _ => Unaffected view [] s) E := by
  refine onWorld_triple fun t alike => writeStore_accepted accepts fun w equal => ?_
  subst equal
  exact ⟨alike.disk, alike.files, alike.there, alike.mirror, alike.pending⟩

end Records

section Moves

variable {s : PushState ρ} {file : PendingPushFile} (accepts : StoreAccepts env)
  (spec : EngineSpec env.digest hashPrefix env.engine view) (refuses : EngineRefuses env.engine view)
include accepts spec

theorem tryTarget_refiles {migration : Option SyncPathMigration} {old : Option Text}
    {E : ClientError → PushState ρ → Prop} :
    Triple (Unaffected view [] s) (tryTarget env migration old file)
      (fun done t => Unaffected view [] s t ∨ done = true ∧ ∃ path, old = some path ∧ Refiled env view path file s t ∧
        view t.world.remote = view s.world.remote) E := by
  cases migration with
  | none => exact Triple.ret fun _ alike => Or.inl alike
  | some migration =>
      cases old with
      | none => exact Triple.ret fun _ alike => Or.inl alike
      | some old =>
          refine Triple.bind (query_unaffected spec) fun answer => ?_
          rcases answer with _ | _ | _
          · exact Triple.ret fun _ holds => Or.inl holds.1
          · exact Triple.ret fun _ holds => Or.inl holds.1
          refine Triple.bind (Q := fun _ t => Refiled env view old file s t ∧ view t.world.remote = view s.world.remote) ?_
            fun _ => Triple.ret fun _ holds => Or.inr ⟨rfl, old, rfl, holds⟩
          refine (recordTarget_refiles accepts).weaken fun t holds => ⟨holds.1, ?_⟩
          obtain ⟨content, present, same⟩ := holds.2 rfl
          exact ⟨.file content, (holds.1.there _ List.not_mem_nil).trans present, same⟩

include refuses

theorem tryMove_refiles {queryRoot : Text} {old : Option Text} {refused : Text → ClientError → PushProgram ρ Bool}
    {E : ClientError → PushState ρ → Prop} (calm : ∀ path error,
      Triple (Unaffected view [] s) (refused path error) (fun _ => Unaffected view [] s) E) :
    Triple (Unaffected view [] s) (tryMove env queryRoot old file refused)
      (fun done t => Unaffected view [] s t ∨ done = true ∧ ∃ path source, old = some path ∧
        s.metadataByPath.find path = some source ∧ source.contentHash = file.contentHash ∧
        Refiled env view path file s t) E := by
  refine Triple.bind (Q := fun u t => u.metadataByPath = s.metadataByPath ∧ Unaffected view [] s t)
    (Triple.get fun _ alike => ⟨alike.mirror, alike⟩) fun u => ?_
  refine Triple.assume (fun _ holds => holds.1) fun mirror => Triple.weaken ?_ fun _ holds => holds.2
  cases old with
  | none => exact Triple.ret fun _ alike => Or.inl alike
  | some old =>
      dsimp only
      rw [mirror]
      cases listed : s.metadataByPath.find old with
      | none => exact Triple.ret fun _ alike => Or.inl alike
      | some source =>
          refine Triple.ite (fun eligible => ?_) fun _ => Triple.ret fun _ alike => Or.inl alike
          refine Triple.bind (query_unaffected spec) fun answer => ?_
          rcases answer with _ | _ | _
          · exact Triple.ret fun _ holds => Or.inl holds.1
          · exact Triple.ret fun _ holds => Or.inl holds.1
          refine Triple.assume (fun _ holds => holds.2 rfl) fun known => ?_
          obtain ⟨content, present, same⟩ := known
          refine Triple.bind (note_unaffected.weaken fun _ holds => holds.1) fun _ => ?_
          refine Triple.bind (Q := fun r t => (∀ error, r = .error error → Unaffected view [] s t) ∧
            (r = .ok () → Unaffected view [old, file.remotePath] s t ∧
              Holds env.digest (view t.world.remote) file.remotePath file.contentHash))
            (Triple.attempt (onWorld_triple fun t alike => callRemote_triple (fun w a equal answer => ?_)
              fun w e equal answer => ?_)) fun moved => ?_
          · subst equal
            refine ⟨(fun _ impossible => by cases impossible), fun _ => ⟨?_, .file content, ?_, same⟩⟩
            · refine (alike.more _).called fun path outside => ?_
              simp only [List.mem_cons, List.not_mem_nil, or_false, not_or] at outside
              exact spec.renameFile_other _ _ _ path outside.1 outside.2
            · exact (spec.renameFile_ok _ _ _ eligible.1 answer).2.trans
                ((alike.there old List.not_mem_nil).trans present)
          · subst equal
            refine ⟨fun _ _ => alike.called fun path _ => ?_, fun impossible => by cases impossible⟩
            exact congrFun (refuses.renameFile_error _ _ _ _ answer) path
          cases moved with
          | error error =>
              exact ((calm old error).weaken fun _ holds => holds.1 error rfl).strengthen fun _ _ alike => Or.inl alike
          | ok _ =>
              refine Triple.bind (Q := fun _ => Refiled env view old file s) ?_
                fun _ => Triple.ret fun _ refiled =>
                  Or.inr ⟨rfl, old, source, rfl, listed, eligible.2, refiled⟩
              exact (recordMove_refiles accepts eligible.1).weaken fun _ holds => holds.2 rfl

/-- What is deleted is gone on the remote and from the records, or all is as it was. -/
theorem deleteRemote_removes {path : Text} {E : ClientError → PushState ρ → Prop} :
    Triple (Unaffected view [] s) (deleteRemote env path) (fun _ t => Unaffected view [] s t ∨
      t.world.disk = s.world.disk ∧ t.pendingMetadataUpdates = s.pendingMetadataUpdates ∧
        t.world.store.files = s.world.store.files.remove path ∧
        ∀ other, other ≠ path → view t.world.remote other = view s.world.remote other) E := by
  refine Triple.bind note_unaffected fun _ => ?_
  refine Triple.bind (Q := fun r t => (∀ error, r = .error error → Unaffected view [] s t) ∧
    (r = .ok () → Unaffected view [path] s t)) (Triple.attempt (onWorld_triple fun t alike => callRemote_triple
      (fun w a equal answer => ?_) fun w e equal answer => ?_)) fun outcome => ?_
  · subst equal
    refine ⟨(fun _ impossible => by cases impossible), fun _ => (alike.more _).called fun other outside => ?_⟩
    exact spec.deleteFile_other _ _ other fun same => outside (List.mem_singleton.mpr same)
  · subst equal
    refine ⟨fun _ _ => alike.called fun other _ => ?_, fun impossible => by cases impossible⟩
    exact congrFun (refuses.deleteFile_error _ _ _ answer) other
  cases outcome with
  | error error => exact Triple.modify fun t holds => Or.inl ((holds.1 error rfl).counted rfl rfl rfl)
  | ok _ =>
      refine Triple.seq (M := fun t => t.world.disk = s.world.disk ∧
        t.pendingMetadataUpdates = s.pendingMetadataUpdates ∧
        t.world.store.files = s.world.store.files.remove path ∧
        ∀ other, other ≠ path → view t.world.remote other = view s.world.remote other) ?_
          (Triple.modify fun _ => Or.inr)
      refine onWorld_triple fun t holds => writeStore_accepted accepts fun w equal => ?_
      subst equal
      have alike := holds.2 rfl
      refine ⟨alike.disk, alike.pending, congrArg (·.remove path) alike.files, fun other apart => ?_⟩
      exact alike.there other fun inside => apart (List.mem_singleton.mp inside)

end Moves

end AeordbSync

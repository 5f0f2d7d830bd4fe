import AeordbSync.Push.SyncFrame

namespace AeordbSync
open Characters OsPath FileSystem Effect

variable {ρ : Type} {env : Env ρ} {ctx : PushContext} {disk : Tree} {records : Records}

def PushContext.entryRemotePath (ctx : PushContext) (entry : PathBuf) : Text :=
  match stripPrefix entry ctx.localBase with
  | some relative => ctx.remotePathOf relative
  | none => []

/-- The name of the entry can be read and the filter lets it pass. -/
def Accepted (env : Env ρ) (relationship : SyncRelationship) (entry : PathBuf) : Prop :=
  ∃ filename, (fileName entry).bind toStr? = some filename ∧
    matchesFilter env.globMatch filename relationship.filter = true

/-- The request asks for the content of an accepted file that was not skipped. -/
structure Requested (env : Env ρ) (ctx : PushContext) (disk : Tree) (records : Records)
    (entry : PathBuf) (request : PushFilePrepRequest) : Prop where
  entryPath : request.entryPath = entry
  remotePath : request.remotePath = ctx.entryRemotePath entry
  accepted : Accepted env ctx.relationship entry
  isFile : ∃ content time, disk.metadata false entry = .ok (.file content time)
  modifiedAt : disk.modified entry = .ok request.modifiedAt ∧ 0 ≤ request.modifiedAt
  storedMeta : request.storedMeta = records.find request.remotePath
  migrationOld : request.migrationOldRemotePath = ctx.oldRemotePathOf entry
  legacy : ∃ relative, stripPrefix entry ctx.localBase = some relative ∧
    request.legacySeparatorRemotePath =
      computeLegacySeparatorRemotePath relative ctx.relationship.remotePath

structure LinkQueued (env : Env ρ) (ctx : PushContext) (disk : Tree) (entry : PathBuf)
    (link : PendingSymlink) : Prop where
  remotePath : link.remotePath = ctx.entryRemotePath entry
  target : ∃ found time, disk.metadata false entry = .ok (.symlink found time) ∧
    link.target = toStringLossy found
  contentHash : link.contentHash = symlinkIdentityHash env.digest link.remotePath link.target

/-- What the scan has done with a file or a symlink whose metadata it could read. -/
def NodeOutcome (env : Env ρ) (ctx : PushContext) (disk : Tree) (records : Records) (entry : PathBuf)
    (node : Node) (s : PushState ρ) : Prop :=
  match node with
  | .symlink found _ =>
      ctx.entryRemotePath entry ∈ s.seenRemotePaths ∧ (s.errors ≠ [] ∨
        canLiteFastSkipSymlink ctx.mode (records.find (ctx.entryRemotePath entry))
          (symlinkIdentityHash env.digest (ctx.entryRemotePath entry) (toStringLossy found)) = true ∨
        ∃ link ∈ s.pendingSymlinks, LinkQueued env ctx disk entry link)
  | .file content _ => Accepted env ctx.relationship entry →
      ctx.entryRemotePath entry ∈ s.seenRemotePaths ∧ (s.errors ≠ [] ∨
        (∃ mtime, disk.modified entry = .ok mtime ∧ 0 ≤ mtime ∧
          canLiteFastSkip ctx.mode (records.find (ctx.entryRemotePath entry)) content.length mtime = true) ∨
        ∃ request ∈ s.filePrepRequests, Requested env ctx disk records entry request)
  | _ => True

/-- Only an entry whose metadata cannot be read may go unseen without its kind being known. -/
def ScanOutcome (env : Env ρ) (ctx : PushContext) (disk : Tree) (records : Records) (entry : PathBuf)
    (s : PushState ρ) : Prop :=
  match disk.metadata false entry with
  | .error _ => s.errors ≠ []
  | .ok node => (∃ relative, stripPrefix entry ctx.localBase = some relative) →
      (s.errors ≠ [] ∧ ∃ error tick, env.diskFault .symlinkMetadata entry tick = some error) ∨
        NodeOutcome env ctx disk records entry node s

/-- The run has only gained entries, requests and errors. -/
structure Grown (s next : PushState ρ) : Prop where
  seen : s.seenRemotePaths ⊆ next.seenRemotePaths
  errors : s.errors ≠ [] → next.errors ≠ []
  requests : s.filePrepRequests ⊆ next.filePrepRequests
  links : s.pendingSymlinks ⊆ next.pendingSymlinks

theorem NodeOutcome.grown {entry : PathBuf} {node : Node} {s next : PushState ρ}
    (outcome : NodeOutcome env ctx disk records entry node s) (grown : Grown s next) :
    NodeOutcome env ctx disk records entry node next := by
  cases node with
  | symlink found time =>
      refine ⟨grown.seen outcome.1, ?_⟩
      rcases outcome.2 with failed | skipped | ⟨link, inside, queued⟩
      · exact Or.inl (grown.errors failed)
      · exact Or.inr (Or.inl skipped)
      · exact Or.inr (Or.inr ⟨link, grown.links inside, queued⟩)
  | file content time =>
      intro accepted
      obtain ⟨seen, rest⟩ := outcome accepted
      refine ⟨grown.seen seen, ?_⟩
      rcases rest with failed | skipped | ⟨request, inside, asked⟩
      · exact Or.inl (grown.errors failed)
      · exact Or.inr (Or.inl skipped)
      · exact Or.inr (Or.inr ⟨request, grown.requests inside, asked⟩)
  | directory => trivial
  | special => trivial

theorem ScanOutcome.grown {entry : PathBuf} {s next : PushState ρ}
    (outcome : ScanOutcome env ctx disk records entry s) (grown : Grown s next) :
    ScanOutcome env ctx disk records entry next := by
  unfold ScanOutcome at *
  split
  next e found =>
    rw [found] at outcome
    exact grown.errors outcome
  next node found =>
    rw [found] at outcome
    intro below
    rcases outcome below with ⟨failed, fault⟩ | known
    · exact Or.inl ⟨grown.errors failed, fault⟩
    · exact Or.inr (known.grown grown)

/-- What the scan of one entry can change. -/
structure Scanned (env : Env ρ) (ctx : PushContext) (disk : Tree) (records : Records) (entry : PathBuf)
    (s next : PushState ρ) : Prop where
  still : Unmoved s.world next.world
  records_eq : next.metadataByPath = s.metadataByPath
  batch : next.pendingBatch = s.pendingBatch
  updates : next.pendingMetadataUpdates = s.pendingMetadataUpdates
  errors : s.errors ≠ [] → next.errors ≠ []
  seen : next.seenRemotePaths = s.seenRemotePaths ∨
    next.seenRemotePaths = ctx.entryRemotePath entry :: s.seenRemotePaths ∧
      ∃ node, disk.metadata false entry = .ok node ∧ (node.isFile || node.isSymlink) = true
  requests : next.filePrepRequests = s.filePrepRequests ∨
    ∃ request, next.filePrepRequests = s.filePrepRequests ++ [request] ∧
      Requested env ctx disk records entry request ∧ request.remotePath ∈ next.seenRemotePaths
  links : next.pendingSymlinks = s.pendingSymlinks ∨
    ∃ link, next.pendingSymlinks = s.pendingSymlinks ++ [link] ∧
      LinkQueued env ctx disk entry link ∧ link.remotePath ∈ next.seenRemotePaths
  outcome : ScanOutcome env ctx disk records entry next

theorem Scanned.grown {entry : PathBuf} {s next : PushState ρ}
    (scanned : Scanned env ctx disk records entry s next) : Grown s next where
  seen := by
    rcases scanned.seen with same | ⟨same, -⟩ <;> rw [same]
    · exact List.Subset.refl _
    · exact List.subset_cons_self ..
  errors := scanned.errors
  requests := by
    rcases scanned.requests with same | ⟨request, same, -⟩ <;> rw [same]
    · exact List.Subset.refl _
    · exact List.subset_append_left ..
  links := by
    rcases scanned.links with same | ⟨link, same, -⟩ <;> rw [same]
    · exact List.Subset.refl _
    · exact List.subset_append_left ..

/-- Only the time has passed on the side of the world. -/
def Still (s t : PushState ρ) : Prop := ∃ w, Unmoved s.world w ∧ t = s.withWorld w

theorem onWorld_still {α : Type} {x : Program ρ α} {F : α → Prop} {E : ClientError → PushState ρ → Prop}
    {s : PushState ρ} (quiet : Triple (Unmoved s.world) x (fun a next => Unmoved s.world next ∧ F a)
      (fun _ _ => False)) :
    Triple (Still s) (onWorld x) (fun a t => Still s t ∧ F a) E := by
  refine onWorld_triple fun t still => ?_
  obtain ⟨w, unmoved, rfl⟩ := still
  refine quiet.conseq (fun _ equal => equal ▸ unmoved) (fun a next holds => ?_)
    fun _ _ impossible => impossible.elim
  exact ⟨⟨next, holds.1, rfl⟩, holds.2⟩

theorem fileMtime_unmoved {path : PathBuf} {w : World ρ} {E : ClientError → World ρ → Prop} :
    Triple (Unmoved w) (fileMtime env path) (fun r next => Unmoved w next ∧
      ∀ mtime, r = .ok mtime → w.disk.modified path = .ok mtime ∧ 0 ≤ mtime) E := by
  refine Triple.bind readDisk_unmoved fun result => ?_
  cases result with
  | error error => exact Triple.ret fun _ holds => ⟨holds.1, fun _ equal => by cases equal⟩
  | ok time =>
      refine Triple.ite (fun _ => Triple.ret fun _ holds => ⟨holds.1, fun _ equal => by cases equal⟩)
        fun late => Triple.ret fun _ holds => ⟨holds.1, fun mtime equal => ?_⟩
      simp only [Except.ok.injEq] at equal
      subst mtime
      rcases holds.2 with found | ⟨error, tick, found, -⟩
      · exact ⟨found.symm, not_lt.mp late⟩
      · cases found

theorem metadataMtimeOrNow_unmoved {modified : Int} {w : World ρ} {E : ClientError → World ρ → Prop} :
    Triple (Unmoved w) (metadataMtimeOrNow env modified) (fun _ next => Unmoved w next ∧ True) E :=
  Triple.ite (fun _ => now_unmoved.strengthen fun _ _ unmoved => ⟨unmoved, trivial⟩)
    fun _ => Triple.ret fun _ unmoved => ⟨unmoved, trivial⟩

section Entries

variable {Q : Unit → PushState ρ → Prop} {E : ClientError → PushState ρ → Prop} {P : PushState ρ → Prop}

/-- No file waits, so the end of an entry is only counted. -/
theorem completeEntry_triple {config : BlobConfig}
    (holds : ∀ s, P s → s.pendingBatch = .empty ∧ Q () s.processed) :
    Triple P (completeEntry env config) Q E := by
  refine Triple.bind (Q := fun _ s => s.pendingBatch = .empty ∧ Q () s) (Triple.modify holds) fun _ => ?_
  refine Triple.bind (Q := fun _ s => s.pendingBatch = .empty ∧ Q () s) (Triple.get fun _ => id) fun s => ?_
  refine Triple.when (fun _ => ?_) fun _ _ before => before.2
  refine Triple.bind (Q := fun t s => t = s ∧ s.pendingBatch = .empty ∧ Q () s)
    (Triple.get fun _ before => ⟨rfl, before⟩) fun t => ?_
  refine Triple.ite (fun _ => Triple.ret fun _ before => before.2.2) fun waiting => ?_
  exact Triple.assume (C := False) (fun s before => waiting (by rw [before.1, before.2.1]; rfl)) False.elim

theorem failEntry_triple {message : Text}
    (holds : ∀ s, P s → s.pendingBatch = .empty ∧ Q () (s.failed message).processed) :
    Triple P (failEntry env ctx message) Q E :=
  Triple.bind (Q := fun _ s => s.pendingBatch = .empty ∧ Q () s.processed) (Triple.modify holds)
    fun _ => completeEntry_triple fun _ before => before

theorem skipEntry_triple
    (holds : ∀ s, P s → s.pendingBatch = .empty ∧ Q () s.skipped.processed) :
    Triple P (skipEntry env ctx) Q E :=
  Triple.bind (Q := fun _ s => s.pendingBatch = .empty ∧ Q () s.processed) (Triple.modify holds)
    fun _ => completeEntry_triple fun _ before => before

end Entries

section Scan

variable {entry : PathBuf} {s : PushState ρ} {relative : List Component}

theorem entryRemotePath_eq (stripped : stripPrefix entry ctx.localBase = some relative) :
    ctx.entryRemotePath entry = ctx.remotePathOf relative := by
  rw [PushContext.entryRemotePath, stripped]

variable (stripped : stripPrefix entry ctx.localBase = some relative) (empty : s.pendingBatch = .empty)
include stripped empty

theorem scanSymlink_scanned {target : OsText} {time : Int}
    (node : s.world.disk.metadata false entry = .ok (.symlink target time)) :
    Triple (Still s) (scanSymlink env ctx entry (ctx.remotePathOf relative) time)
      (fun _ => Scanned env ctx s.world.disk s.metadataByPath entry s) (fun _ _ => False) := by
  have path := entryRemotePath_eq stripped
  have read : s.world.disk.readLink entry = .ok target := by rw [Tree.readLink, node]
  have isLink : ∃ node, s.world.disk.metadata false entry = .ok node ∧
      (node.isFile || node.isSymlink) = true := ⟨_, node, rfl⟩
  refine Triple.bind (Q := fun _ => Still (s.saw (ctx.entryRemotePath entry))) ?_ fun _ => ?_
  · refine Triple.modify fun t still => ?_
    obtain ⟨w, unmoved, rfl⟩ := still
    rw [path]
    exact ⟨w, unmoved, rfl⟩
  refine Triple.bind (onWorld_still readDisk_unmoved) fun found => ?_
  cases found with
  | error error =>
      refine failEntry_triple fun t still => ?_
      obtain ⟨⟨w, unmoved, rfl⟩, -⟩ := still
      refine ⟨empty, unmoved, rfl, rfl, rfl, ?_, Or.inr ⟨rfl, isLink⟩, Or.inl rfl, Or.inl rfl, ?_⟩
      · exact fun _ => PushState.errors_failed _ _
      · rw [ScanOutcome, node]
        refine fun _ => Or.inr ⟨List.mem_cons_self .., Or.inl ?_⟩
        exact PushState.errors_failed _ _
  | ok found =>
      refine Triple.assume (C := found = target) (fun t holds => ?_) fun same => ?_
      · rcases holds.2 with equal | ⟨error, tick, impossible, -⟩
        · exact Except.ok.inj (equal.trans read)
        · cases impossible
      subst found
      refine Triple.weaken (P := Still (s.saw (ctx.entryRemotePath entry))) ?_ fun _ holds => holds.1
      refine Triple.bind (Q := fun u t => Still (s.saw (ctx.entryRemotePath entry)) t ∧
        u.metadataByPath = s.metadataByPath) (Triple.get fun t still => ⟨still, ?_⟩) fun u => ?_
      · obtain ⟨w, -, rfl⟩ := still
        rfl
      refine Triple.assume (fun _ holds => holds.2) fun loaded => ?_
      refine Triple.weaken (P := Still (s.saw (ctx.entryRemotePath entry))) ?_ fun _ holds => holds.1
      refine Triple.ite (fun skips => ?_) fun _ => ?_
      · refine skipEntry_triple fun t still => ?_
        obtain ⟨w, unmoved, rfl⟩ := still
        refine ⟨empty, unmoved, rfl, rfl, rfl, id, Or.inr ⟨rfl, isLink⟩, Or.inl rfl, Or.inl rfl, ?_⟩
        rw [ScanOutcome, node]
        refine fun _ => Or.inr ⟨List.mem_cons_self .., Or.inr (Or.inl ?_)⟩
        rwa [path, ← loaded]
      · refine Triple.bind (onWorld_still metadataMtimeOrNow_unmoved) fun modifiedAt => ?_
        refine Triple.modify fun t still => ?_
        obtain ⟨⟨w, unmoved, rfl⟩, -⟩ := still
        have queued : LinkQueued env ctx s.world.disk entry ⟨ctx.remotePathOf relative,
            toStringLossy target, symlinkIdentityHash env.digest (ctx.remotePathOf relative)
              (toStringLossy target), modifiedAt⟩ := ⟨path.symm, ⟨target, time, node, rfl⟩, rfl⟩
        refine ⟨unmoved, rfl, rfl, rfl, id, Or.inr ⟨rfl, isLink⟩, Or.inl rfl,
          Or.inr ⟨_, rfl, queued, ?_⟩, ?_⟩
        · rw [queued.remotePath]
          exact List.mem_cons_self ..
        · rw [ScanOutcome, node]
          refine fun _ => Or.inr ⟨List.mem_cons_self .., Or.inr (Or.inr ⟨_, ?_, queued⟩)⟩
          exact List.mem_append_right _ (List.mem_singleton.mpr rfl)

theorem scanAccepted_scanned {content : Bytes} {time : Int}
    (node : s.world.disk.metadata false entry = .ok (.file content time))
    (accepted : Accepted env ctx.relationship entry) :
    Triple (Still s) (scanAccepted env ctx entry relative content.length)
      (fun _ => Scanned env ctx s.world.disk s.metadataByPath entry s) (fun _ _ => False) := by
  have path := entryRemotePath_eq stripped
  have isFile : ∃ node, s.world.disk.metadata false entry = .ok node ∧
      (node.isFile || node.isSymlink) = true := ⟨_, node, rfl⟩
  refine Triple.bind (Q := fun _ => Still (s.saw (ctx.entryRemotePath entry))) ?_ fun _ => ?_
  · refine Triple.modify fun t still => ?_
    obtain ⟨w, unmoved, rfl⟩ := still
    rw [path]
    exact ⟨w, unmoved, rfl⟩
  refine Triple.bind (onWorld_still fileMtime_unmoved) fun result => ?_
  cases result with
  | error error =>
      refine failEntry_triple fun t still => ?_
      obtain ⟨⟨w, unmoved, rfl⟩, -⟩ := still
      refine ⟨empty, unmoved, rfl, rfl, rfl, ?_, Or.inr ⟨rfl, isFile⟩, Or.inl rfl, Or.inl rfl, ?_⟩
      · exact fun _ => PushState.errors_failed _ _
      · rw [ScanOutcome, node]
        refine fun _ => Or.inr fun _ => ⟨List.mem_cons_self .., Or.inl ?_⟩
        exact PushState.errors_failed _ _
  | ok mtime =>
      refine Triple.assume (fun _ holds => holds.2 mtime rfl) fun read => ?_
      refine Triple.weaken (P := Still (s.saw (ctx.entryRemotePath entry))) ?_ fun _ holds => holds.1
      refine Triple.bind (Q := fun u t => Still (s.saw (ctx.entryRemotePath entry)) t ∧
        u.metadataByPath = s.metadataByPath) (Triple.get fun t still => ⟨still, ?_⟩) fun u => ?_
      · obtain ⟨w, -, rfl⟩ := still
        rfl
      refine Triple.assume (fun _ holds => holds.2) fun loaded => ?_
      refine Triple.weaken (P := Still (s.saw (ctx.entryRemotePath entry))) ?_ fun _ holds => holds.1
      refine Triple.ite (fun skips => ?_) fun _ => ?_
      · refine skipEntry_triple fun t still => ?_
        obtain ⟨w, unmoved, rfl⟩ := still
        refine ⟨empty, unmoved, rfl, rfl, rfl, id, Or.inr ⟨rfl, isFile⟩, Or.inl rfl, Or.inl rfl, ?_⟩
        rw [ScanOutcome, node]
        refine fun _ => Or.inr fun _ =>
          ⟨List.mem_cons_self .., Or.inr (Or.inl ⟨mtime, read.1, read.2, ?_⟩)⟩
        rwa [path, ← loaded]
      · refine Triple.modify fun t still => ?_
        obtain ⟨w, unmoved, rfl⟩ := still
        have asked : Requested env ctx s.world.disk s.metadataByPath entry ⟨entry,
            ctx.remotePathOf relative, mtime, mimeFromExtension entry,
            u.metadataByPath.find (ctx.remotePathOf relative), ctx.oldRemotePathOf entry,
            computeLegacySeparatorRemotePath relative ctx.relationship.remotePath⟩ :=
          ⟨rfl, path.symm, accepted, ⟨content, time, node⟩, read, by rw [loaded], rfl, ⟨relative, stripped, rfl⟩⟩
        refine ⟨unmoved, rfl, rfl, rfl, id, Or.inr ⟨rfl, isFile⟩, Or.inr ⟨_, rfl, asked, ?_⟩,
          Or.inl rfl, ?_⟩
        · rw [asked.remotePath]
          exact List.mem_cons_self ..
        · rw [ScanOutcome, node]
          refine fun _ => Or.inr fun _ => ⟨List.mem_cons_self .., Or.inr (Or.inr ⟨_, ?_, asked⟩)⟩
          exact List.mem_append_right _ (List.mem_singleton.mpr rfl)

theorem scanFile_scanned {content : Bytes} {time : Int}
    (node : s.world.disk.metadata false entry = .ok (.file content time)) :
    Triple (Still s) (scanFile env ctx entry relative content.length)
      (fun _ => Scanned env ctx s.world.disk s.metadataByPath entry s) (fun _ _ => False) := by
  have refused : ∀ {next : PushState ρ}, ¬ Accepted env ctx.relationship entry →
      ScanOutcome env ctx s.world.disk s.metadataByPath entry next := by
    intro next rejected
    rw [ScanOutcome, node]
    exact fun _ => Or.inr fun accepted => absurd accepted rejected
  unfold scanFile
  split
  next unreadable =>
    refine completeEntry_triple fun t still => ?_
    obtain ⟨w, unmoved, rfl⟩ := still
    refine ⟨empty, unmoved, rfl, rfl, rfl, id, Or.inl rfl, Or.inl rfl, Or.inl rfl, refused ?_⟩
    rintro ⟨filename, found, -⟩
    rw [unreadable] at found
    cases found
  next filename readable =>
    split
    next accepted => exact scanAccepted_scanned stripped empty node ⟨filename, readable, accepted⟩
    next rejected =>
      refine skipEntry_triple fun t still => ?_
      obtain ⟨w, unmoved, rfl⟩ := still
      refine ⟨empty, unmoved, rfl, rfl, rfl, id, Or.inl rfl, Or.inl rfl, Or.inl rfl, refused ?_⟩
      rintro ⟨other, found, accepts⟩
      rw [readable, Option.some.injEq] at found
      exact rejected (found ▸ accepts)

end Scan

/-- The scan of an entry never aborts the run. -/
theorem scanEntry_scanned {entry : PathBuf} {s : PushState ρ} (empty : s.pendingBatch = .empty) :
    Triple (· = s) (scanEntry env ctx entry)
      (fun _ => Scanned env ctx s.world.disk s.metadataByPath entry s) (fun _ _ => False) := by
  have begins : ∀ t, t = s → Still s t := fun t equal => ⟨s.world, Unmoved.refl _, equal⟩
  refine Triple.bind ((onWorld_still readDisk_unmoved).weaken begins) fun result => ?_
  cases result with
  | error error =>
      refine failEntry_triple fun t holds => ?_
      obtain ⟨⟨w, unmoved, rfl⟩, answer⟩ := holds
      have failed := PushState.errors_failed
        (failedOn env "failed to read metadata for " entry error.text) (s.withWorld w)
      refine ⟨empty, unmoved, rfl, rfl, rfl, fun _ => failed, Or.inl rfl, Or.inl rfl, Or.inl rfl, ?_⟩
      unfold ScanOutcome
      split
      · exact failed
      next node found =>
        refine fun _ => Or.inl ⟨failed, ?_⟩
        rcases answer with equal | ⟨other, tick, -, fault⟩
        · rw [found] at equal
          cases equal
        · exact ⟨other, tick, fault⟩
  | ok node =>
      refine Triple.assume (C := s.world.disk.metadata false entry = .ok node) (fun t holds => ?_)
        fun found => ?_
      · rcases holds.2 with equal | ⟨error, tick, impossible, -⟩
        · exact equal.symm
        · cases impossible
      refine Triple.weaken (P := Still s) ?_ fun _ holds => holds.1
      have quiet : ∀ (next : PushState ρ), ((∃ relative, stripPrefix entry ctx.localBase = some relative) →
          (node.isFile || node.isSymlink) = false) →
          ScanOutcome env ctx s.world.disk s.metadataByPath entry next := by
        intro next other
        rw [ScanOutcome, found]
        intro below
        cases node with
        | file content time => cases other below
        | symlink target time => cases other below
        | directory => exact Or.inr trivial
        | special => exact Or.inr trivial
      dsimp only
      split
      next outside =>
        refine completeEntry_triple fun t still => ?_
        obtain ⟨w, unmoved, rfl⟩ := still
        refine ⟨empty, unmoved, rfl, rfl, rfl, id, Or.inl rfl, Or.inl rfl, Or.inl rfl, quiet _ ?_⟩
        rintro ⟨relative, inside⟩
        rw [outside] at inside
        cases inside
      next relative stripped =>
        cases node with
        | symlink target time => exact scanSymlink_scanned stripped empty found
        | file content time => exact scanFile_scanned stripped empty found
        | directory =>
            refine completeEntry_triple fun t still => ?_
            obtain ⟨w, unmoved, rfl⟩ := still
            exact ⟨empty, unmoved, rfl, rfl, rfl, id, Or.inl rfl, Or.inl rfl, Or.inl rfl,
              quiet _ fun _ => rfl⟩
        | special =>
            refine completeEntry_triple fun t still => ?_
            obtain ⟨w, unmoved, rfl⟩ := still
            exact ⟨empty, unmoved, rfl, rfl, rfl, id, Or.inl rfl, Or.inl rfl, Or.inl rfl,
              quiet _ fun _ => rfl⟩

/-- The scan has read the disk and changed nothing else, and every entry before the rest is settled. -/
structure ScanInv (env : Env ρ) (ctx : PushContext) (start : World ρ) (records : Records)
    (entries rest : List PathBuf) (s : PushState ρ) : Prop where
  still : Unmoved start s.world
  records_eq : s.metadataByPath = records
  batch : s.pendingBatch = .empty
  updates : s.pendingMetadataUpdates = []
  requests : ∀ request ∈ s.filePrepRequests, ∃ entry ∈ entries,
    Requested env ctx start.disk records entry request
  links : ∀ link ∈ s.pendingSymlinks, ∃ entry ∈ entries, LinkQueued env ctx start.disk entry link
  seen : ∀ path ∈ s.seenRemotePaths, ∃ entry ∈ entries, path = ctx.entryRemotePath entry ∧
    ∃ node, start.disk.metadata false entry = .ok node ∧ (node.isFile || node.isSymlink) = true
  requestPaths : (s.filePrepRequests.map PushFilePrepRequest.remotePath ++
    rest.map ctx.entryRemotePath).Sublist (entries.map ctx.entryRemotePath)
  linkPaths : (s.pendingSymlinks.map PendingSymlink.remotePath ++
    rest.map ctx.entryRemotePath).Sublist (entries.map ctx.entryRemotePath)
  requestSeen : ∀ request ∈ s.filePrepRequests, request.remotePath ∈ s.seenRemotePaths
  linkSeen : ∀ link ∈ s.pendingSymlinks, link.remotePath ∈ s.seenRemotePaths
  settled : ∀ entry ∈ entries, entry ∈ rest ∨ ScanOutcome env ctx start.disk records entry s

theorem ScanInv.step {start : World ρ} {entries rest : List PathBuf} {entry : PathBuf}
    {s next : PushState ρ} (inv : ScanInv env ctx start records entries (entry :: rest) s)
    (inside : entry ∈ entries) (scanned : Scanned env ctx start.disk records entry s next) :
    ScanInv env ctx start records entries rest next := by
  have grown := scanned.grown
  have dropped : ∀ paths : List Text, (paths ++ rest.map ctx.entryRemotePath).Sublist
      (paths ++ (entry :: rest).map ctx.entryRemotePath) := fun paths =>
    (List.Sublist.refl paths).append (List.sublist_cons_self ..)
  refine ⟨inv.still.trans scanned.still, scanned.records_eq.trans inv.records_eq,
    scanned.batch.trans inv.batch, scanned.updates.trans inv.updates, ?_, ?_, ?_, ?_, ?_, ?_, ?_, ?_⟩
  · rcases scanned.requests with same | ⟨request, same, asked, -⟩
    · rw [same]
      exact inv.requests
    · rw [same]
      intro other listed
      rcases List.mem_append.mp listed with old | fresh
      · exact inv.requests other old
      · rw [List.mem_singleton.mp fresh]
        exact ⟨entry, inside, asked⟩
  · rcases scanned.links with same | ⟨link, same, queued, -⟩
    · rw [same]
      exact inv.links
    · rw [same]
      intro other listed
      rcases List.mem_append.mp listed with old | fresh
      · exact inv.links other old
      · rw [List.mem_singleton.mp fresh]
        exact ⟨entry, inside, queued⟩
  · rcases scanned.seen with same | ⟨same, kind⟩
    · rw [same]
      exact inv.seen
    · rw [same]
      intro path listed
      rcases List.mem_cons.mp listed with rfl | old
      · exact ⟨entry, inside, rfl, kind⟩
      · exact inv.seen path old
  · rcases scanned.requests with same | ⟨request, same, asked, -⟩
    · rw [same]
      exact (dropped _).trans inv.requestPaths
    · rw [same, List.map_append, List.map_singleton, asked.remotePath, List.append_assoc]
      exact inv.requestPaths
  · rcases scanned.links with same | ⟨link, same, queued, -⟩
    · rw [same]
      exact (dropped _).trans inv.linkPaths
    · rw [same, List.map_append, List.map_singleton, queued.remotePath, List.append_assoc]
      exact inv.linkPaths
  · rcases scanned.requests with same | ⟨request, same, -, listed⟩
    · rw [same]
      exact fun other old => grown.seen (inv.requestSeen other old)
    · rw [same]
      intro other among
      rcases List.mem_append.mp among with old | fresh
      · exact grown.seen (inv.requestSeen other old)
      · rwa [List.mem_singleton.mp fresh]
  · rcases scanned.links with same | ⟨link, same, -, listed⟩
    · rw [same]
      exact fun other old => grown.seen (inv.linkSeen other old)
    · rw [same]
      intro other among
      rcases List.mem_append.mp among with old | fresh
      · exact grown.seen (inv.linkSeen other old)
      · rwa [List.mem_singleton.mp fresh]
  · intro other listed
    rcases inv.settled other listed with waiting | settled
    · rcases List.mem_cons.mp waiting with rfl | later
      · exact Or.inr scanned.outcome
      · exact Or.inl later
    · exact Or.inr (settled.grown grown)

theorem ScanInv.start {w start : World ρ} (entries : List PathBuf) (still : Unmoved start w) :
    ScanInv env ctx start records entries entries (PushState.start records w) where
  still := still
  records_eq := rfl
  batch := rfl
  updates := rfl
  requests := fun _ inside => (List.not_mem_nil inside).elim
  links := fun _ inside => (List.not_mem_nil inside).elim
  seen := fun _ inside => (List.not_mem_nil inside).elim
  requestPaths := List.Sublist.refl _
  linkPaths := List.Sublist.refl _
  requestSeen := fun _ inside => (List.not_mem_nil inside).elim
  linkSeen := fun _ inside => (List.not_mem_nil inside).elim
  settled := fun _ inside => Or.inl inside

theorem scanEntry_inv {start : World ρ} {entries rest : List PathBuf} {entry : PathBuf}
    {E : ClientError → PushState ρ → Prop} (inside : entry ∈ entries) :
    Triple (ScanInv env ctx start records entries (entry :: rest)) (scanEntry env ctx entry)
      (fun _ => ScanInv env ctx start records entries rest) E := by
  refine Triple.fix fun s inv => ?_
  refine (scanEntry_scanned inv.batch).conseq (fun _ => id) (fun _ next scanned => ?_)
    fun _ _ impossible => impossible.elim
  rw [inv.still.disk, inv.records_eq] at scanned
  exact inv.step inside scanned

/-- After the scan every entry of the walk is settled. -/
theorem scan_triple {start : World ρ} {entries : List PathBuf} {E : ClientError → PushState ρ → Prop} :
    Triple (ScanInv env ctx start records entries entries) (Proc.forEach entries (scanEntry env ctx))
      (fun _ => ScanInv env ctx start records entries []) E :=
  Triple.forEach (ScanInv env ctx start records entries) entries fun _ _ suffix =>
    scanEntry_inv (suffix.subset (List.mem_cons_self ..))

end AeordbSync

import AeordbSync.Push.Completeness
import AeordbSync.Push.DeleteSafety
import AeordbSync.Push.StoreFrame
import AeordbSync.Library.Runs

namespace AeordbSync
open Characters OsPath FileSystem Effect

variable {ρ : Type} {env : Env ρ} {ctx : PushContext}

/-- The scan counts the entry as seen when it can read its metadata. -/
def Counted (env : Env ρ) (ctx : PushContext) (disk : Tree) (entry : PathBuf) : Prop :=
  (∃ found time, disk.metadata false entry = .ok (.symlink found time)) ∨
    (∃ content time, disk.metadata false entry = .ok (.file content time)) ∧ Accepted env ctx.relationship entry

/-- The records do not allow the scan to skip this file. -/
def AsksFile (env : Env ρ) (ctx : PushContext) (disk : Tree) (records : Records) (entry : PathBuf) : Prop :=
  ∃ content time mtime, disk.metadata false entry = .ok (.file content time) ∧ Accepted env ctx.relationship entry ∧
    disk.modified entry = .ok mtime ∧
    canLiteFastSkip ctx.mode (records.find (ctx.entryRemotePath entry)) content.length mtime = false

def AsksLink (env : Env ρ) (ctx : PushContext) (disk : Tree) (records : Records) (entry : PathBuf) : Prop :=
  ∃ found time, disk.metadata false entry = .ok (.symlink found time) ∧
    canLiteFastSkipSymlink ctx.mode (records.find (ctx.entryRemotePath entry))
      (symlinkIdentityHash env.digest (ctx.entryRemotePath entry) (toStringLossy found)) = false

/-- Whatever the scan has collected was caused by one of the entries. -/
structure ScanCaused (env : Env ρ) (ctx : PushContext) (start : World ρ) (records : Records)
    (entries : List PathBuf) (s : PushState ρ) : Prop where
  still : Unmoved start s.world
  records_eq : s.metadataByPath = records
  batch : s.pendingBatch = .empty
  requests : s.filePrepRequests ≠ [] → ∃ entry ∈ entries, AsksFile env ctx start.disk records entry
  links : s.pendingSymlinks ≠ [] → ∃ entry ∈ entries, AsksLink env ctx start.disk records entry
  seen : ∀ path ∈ s.seenRemotePaths, ∃ entry ∈ entries, path = ctx.entryRemotePath entry ∧
    Counted env ctx start.disk entry

namespace ScanCaused

variable {start : World ρ} {records : Records} {entries : List PathBuf} {s : PushState ρ} {entry : PathBuf}

theorem begin (entries : List PathBuf) (start : World ρ) (records : Records) :
    ScanCaused env ctx start records entries (PushState.start records start) where
  still := .refl start
  records_eq := rfl
  batch := rfl
  requests := fun some => absurd rfl some
  links := fun some => absurd rfl some
  seen := fun _ inside => (List.not_mem_nil inside).elim

theorem quiet {α : Type} {x : Program ρ α} {F : α → Prop}
    (still : Triple (Unmoved start) x (fun a next => Unmoved start next ∧ F a) (fun _ _ => False)) :
    Keeping (ScanCaused env ctx start records entries) (onWorld x) F := by
  refine onWorld_triple fun s caused => still.conseq (fun _ equal => equal ▸ caused.still) ?_
    fun _ _ impossible => impossible.elim
  exact fun a w holds => ⟨⟨holds.1, caused.records_eq, caused.batch, caused.requests, caused.links, caused.seen⟩, holds.2⟩

theorem completeEntry {config : BlobConfig} :
    Keeping (ScanCaused env ctx start records entries) (completeEntry env config) fun _ => True :=
  completeEntry_triple fun _ caused => ⟨caused.batch,
    ⟨caused.still, caused.records_eq, caused.batch, caused.requests, caused.links, caused.seen⟩, trivial⟩

theorem skipEntry : Keeping (ScanCaused env ctx start records entries) (skipEntry env ctx) fun _ => True :=
  skipEntry_triple fun _ caused => ⟨caused.batch,
    ⟨caused.still, caused.records_eq, caused.batch, caused.requests, caused.links, caused.seen⟩, trivial⟩

theorem failEntry {message : Text} :
    Keeping (ScanCaused env ctx start records entries) (failEntry env ctx message) fun _ => True :=
  failEntry_triple fun _ caused => ⟨caused.batch,
    ⟨caused.still, caused.records_eq, caused.batch, caused.requests, caused.links, caused.seen⟩, trivial⟩

theorem saw (inside : entry ∈ entries) (counted : Counted env ctx start.disk entry) {path : Text}
    (path_eq : path = ctx.entryRemotePath entry) :
    Keeping (ScanCaused env ctx start records entries) (Proc.modify (PushState.saw path) : PushProgram ρ Unit)
      fun _ => True := by
  refine Keeping.modify fun s caused =>
    ⟨caused.still, caused.records_eq, caused.batch, caused.requests, caused.links, fun other listed => ?_⟩
  rcases List.mem_cons.mp listed with rfl | earlier
  · exact ⟨entry, inside, path_eq, counted⟩
  · exact caused.seen other earlier

/-- The scan looks at the records as they were at the start. -/
theorem get : Triple (ScanCaused env ctx start records entries) (Proc.get : PushProgram ρ (PushState ρ))
    (fun u s => ScanCaused env ctx start records entries s ∧ u.metadataByPath = records)
    (fun _ => ScanCaused env ctx start records entries) :=
  Triple.get fun _ caused => ⟨caused, caused.records_eq⟩

theorem scanSymlink {relative : List Component} (inside : entry ∈ entries)
    (stripped : stripPrefix entry ctx.localBase = some relative) {found : OsText} {time : Int}
    (link : start.disk.metadata false entry = .ok (.symlink found time)) :
    Keeping (ScanCaused env ctx start records entries) (scanSymlink env ctx entry (ctx.remotePathOf relative) time)
      fun _ => True := by
  have path := entryRemotePath_eq stripped
  refine Keeping.bind (saw inside (Or.inl ⟨found, time, link⟩) path.symm) fun _ _ => ?_
  refine Keeping.bind (F := fun r => ∀ target, r = .ok target → target = found)
    (quiet (readDisk_unmoved.strengthen fun r _ holds => ⟨holds.1, fun target equal => ?_⟩)) fun r read => ?_
  · subst equal
    rcases holds.2 with read | ⟨error, tick, impossible, -⟩
    · rw [Tree.readLink, link] at read
      exact Except.ok.inj read
    · cases impossible
  cases r with
  | error error => exact failEntry
  | ok target =>
      obtain rfl := read target rfl
      refine Keeping.bind get fun u loaded => Keeping.ite (fun _ => skipEntry) fun asks => ?_
      refine Keeping.bind (quiet metadataMtimeOrNow_unmoved) fun modified _ => ?_
      refine Keeping.modify fun s caused =>
        ⟨caused.still, caused.records_eq, caused.batch, caused.requests, fun _ => ⟨entry, inside, ?_⟩, caused.seen⟩
      refine ⟨target, time, link, Bool.eq_false_iff.mpr ?_⟩
      rwa [path, ← loaded]

theorem scanAccepted {relative : List Component} (inside : entry ∈ entries)
    (stripped : stripPrefix entry ctx.localBase = some relative) {content : Bytes} {time : Int}
    (file : start.disk.metadata false entry = .ok (.file content time)) (accepted : Accepted env ctx.relationship entry) :
    Keeping (ScanCaused env ctx start records entries) (scanAccepted env ctx entry relative content.length)
      fun _ => True := by
  have path := entryRemotePath_eq stripped
  refine Keeping.bind (saw inside (Or.inr ⟨⟨content, time, file⟩, accepted⟩) path.symm) fun _ _ => ?_
  refine Keeping.bind (quiet fileMtime_unmoved) fun r dated => ?_
  cases r with
  | error error => exact failEntry
  | ok mtime =>
      refine Keeping.bind get fun u loaded => Keeping.ite (fun _ => skipEntry) fun asks => ?_
      refine Keeping.modify fun s caused =>
        ⟨caused.still, caused.records_eq, caused.batch, fun _ => ⟨entry, inside, ?_⟩, caused.links, caused.seen⟩
      refine ⟨content, time, mtime, file, accepted, (dated mtime rfl).1, Bool.eq_false_iff.mpr ?_⟩
      rwa [path, ← loaded]

theorem scanFile {relative : List Component} (inside : entry ∈ entries)
    (stripped : stripPrefix entry ctx.localBase = some relative) {content : Bytes} {time : Int}
    (file : start.disk.metadata false entry = .ok (.file content time)) :
    Keeping (ScanCaused env ctx start records entries) (scanFile env ctx entry relative content.length)
      fun _ => True := by
  unfold AeordbSync.scanFile
  split
  · exact completeEntry
  next filename readable =>
    exact Keeping.ite (fun accepts => scanAccepted inside stripped file ⟨filename, readable, accepts⟩) fun _ => skipEntry

theorem scanEntry (inside : entry ∈ entries) :
    Keeping (ScanCaused env ctx start records entries) (scanEntry env ctx entry) fun _ => True := by
  refine Keeping.bind (F := fun r => ∀ node, r = .ok node → start.disk.metadata false entry = .ok node)
    (quiet (readDisk_unmoved.strengthen fun r _ holds => ⟨holds.1, fun node equal => ?_⟩)) fun r read => ?_
  · subst equal
    rcases holds.2 with read | ⟨error, tick, impossible, -⟩
    · exact read.symm
    · cases impossible
  cases r with
  | error error => exact failEntry
  | ok node =>
      have found := read node rfl
      dsimp only
      split
      · exact completeEntry
      next relative stripped =>
        cases node with
        | symlink target time => exact scanSymlink inside stripped found
        | file content time => exact scanFile inside stripped found
        | directory => exact completeEntry
        | special => exact completeEntry

end ScanCaused

variable {view : ρ → Text → Option RemoteEntry} {hashPrefix : Text} {relationship : SyncRelationship}
  {others : List SyncRelationship} {mode : PushScanMode} {w : World ρ} {config : BlobConfig} {l : Location}
  {entries : List PathBuf} {s : PushState ρ}

/-- A scanned state with the causes of what was collected. -/
structure PushCaused (env : Env ρ) (relationship : SyncRelationship) (others : List SyncRelationship)
    (mode : PushScanMode) (w : World ρ) (config : BlobConfig) (l : Location) (entries : List PathBuf)
    (s : PushState ρ) : Prop extends PushReady env relationship others mode w config l entries s where
  caused : ∃ start : World ρ, start.disk = w.disk ∧
    ScanCaused env (pushContext relationship others mode config w) start w.store.files entries s

/-- What holds of every push that starts from a scanned state holds of every push. -/
theorem pushSync_caused {w : World ρ} {Q : PushResult → World ρ → Prop} {E : ClientError → World ρ → Prop}
    (early : ∀ e next, PushBegun env w next → E e next)
    (late : ∀ config l entries s, PushCaused env relationship others mode w config l entries s →
      Triple (· = s) (pushScanned env (pushContext relationship others mode config w))
        (fun _ s => Q s.result s.world) (fun e s => E e s.world)) :
    Triple (· = w) (pushSync env relationship others mode) Q E := by
  refine pushEntries_triple early fun config l entries start walked => ?_
  let ctx := pushContext relationship others mode config w
  have scanned : Triple (ScanInv env ctx start w.store.files entries entries)
      (Proc.forEach entries (scanEntry env ctx)) (fun _ => ScanInv env ctx start w.store.files entries [])
      fun _ _ => False := scan_triple
  have caused : Triple (ScanCaused env ctx start w.store.files entries) (Proc.forEach entries (scanEntry env ctx))
      (fun _ s => ScanCaused env ctx start w.store.files entries s ∧ True)
      fun _ => ScanCaused env ctx start w.store.files entries :=
    Keeping.forEach fun _ inside => ScanCaused.scanEntry inside
  have begins : Triple (· = PushState.start w.store.files start) (Proc.forEach entries (scanEntry env ctx))
      (fun _ s => ScanInv env ctx start w.store.files entries [] s ∧ ScanCaused env ctx start w.store.files entries s)
      fun e s => E e s.world := by
    refine ((scanned.weaken ?_).both (caused.weaken ?_)).conseq (fun _ => id) (fun _ _ holds => ⟨holds.1, holds.2.1⟩)
      fun _ _ holds => holds.1.elim
    · exact fun _ equal => equal ▸ ScanInv.start entries (Unmoved.refl start)
    · exact fun _ equal => equal ▸ ScanCaused.begin entries start w.store.files
  refine Triple.bind begins fun _ => Triple.fix fun s holds => late config l entries s ⟨?_, start, walked.begun.disk, holds.2⟩
  exact ⟨walked.configured, walked.reaches, walked.walked, walked.begun.unmoved holds.1.still, start,
    walked.begun.disk, holds.1⟩

/-- What holds after every scan and its push holds of a push without errors. -/
theorem pushSync_cleanly {w : World ρ} {Q : PushResult → World ρ → Prop}
    (clean : CompletesCleanly (pushSync env relationship others mode w).1)
    (late : ∀ config l entries s, PushCaused env relationship others mode w config l entries s →
      Triple (· = s) (pushScanned env (pushContext relationship others mode config w))
        (fun _ s => Q s.result s.world) (fun _ _ => True)) :
    ∃ result, result.errors = [] ∧ Q result (pushSync env relationship others mode w).2 := by
  have outcome := pushSync_caused (Q := Q) (E := fun _ _ => True) (fun _ _ _ => trivial) late w rfl
  rcases ended : pushSync env relationship others mode w with ⟨result, next⟩
  rw [ended] at outcome clean
  cases result with
  | error e => cases clean
  | ok result => exact ⟨result, Option.some.inj clean, outcome⟩

/-- The path belongs to a symlink or to an accepted file of the walk. -/
def WalkedAt (env : Env ρ) (relationship : SyncRelationship) (others : List SyncRelationship) (disk : Tree)
    (path : Text) : Prop :=
  ∃ l names node, disk.Reaches relationship.localBase l ∧ names ≠ [] ∧ disk.node (l ++ names) = some node ∧
    isLocalExcludedByChild (below relationship.localBase names) (childLocalExclusions relationship others) = false ∧
    relationship.remotePathAt names = path ∧
    (node.isSymlink = true ∨ node.isFile = true ∧ Accepted env relationship (below relationship.localBase names))

/-- A lite push finds nothing to do: every entry has its record, and every record that it might delete for has its
entry. -/
structure PushSettled (env : Env ρ) (relationship : SyncRelationship) (others : List SyncRelationship)
    (disk : Tree) (store : MetadataStore) : Prop where
  migration : store.migration = none
  files : ∀ l names content time, disk.Reaches relationship.localBase l →
    WalkedFile env relationship others disk l names content time →
    canLiteFastSkip .lite (store.files.find (relationship.remotePathAt names)) content.length time = true
  links : ∀ l names found time, disk.Reaches relationship.localBase l → names ≠ [] →
    disk.node (l ++ names) = some (.symlink found time) →
    isLocalExcludedByChild (below relationship.localBase names) (childLocalExclusions relationship others) = false →
    canLiteFastSkipSymlink .lite (store.files.find (relationship.remotePathAt names))
      (symlinkIdentityHash env.digest (relationship.remotePathAt names) (toStringLossy found)) = true
  records : relationship.deletePropagation.localToRemote = true → ∀ path ∈ store.files.paths,
    isExcludedByChild path (childExclusions relationship others) = true ∨ WalkedAt env relationship others disk path

namespace PushCaused

variable (caused : PushCaused env relationship others mode w config l entries s)
include caused

/-- A seen path belongs to an entry that the scan counts. -/
theorem walkedAt {path : Text} (seen : path ∈ s.seenRemotePaths) : WalkedAt env relationship others w.disk path := by
  obtain ⟨start, onDisk, scanned⟩ := caused.caused
  obtain ⟨entry, listed, rfl, counted⟩ := scanned.seen path seen
  rw [onDisk] at counted
  obtain ⟨names, nonempty, walkable, rfl⟩ := caused.walked.sound entry listed
  obtain ⟨node, present, -⟩ := walkable.kind
  have read := caused.reaches.metadata_present nonempty present
  refine ⟨l, names, node, caused.reaches, nonempty, present, walkable.included, (entryRemotePath_below present).symm, ?_⟩
  rcases counted with ⟨found, time, link⟩ | ⟨⟨content, time, file⟩, accepted⟩
  · rw [read, Except.ok.injEq] at link
    exact Or.inl (link ▸ rfl)
  · rw [read, Except.ok.injEq] at file
    exact Or.inr ⟨file ▸ rfl, accepted⟩

end PushCaused

/-- A settled directory gives the scan nothing to collect. -/
theorem PushSettled.idle (settled : PushSettled env relationship others w.disk w.store)
    (caused : PushCaused env relationship others .lite w config l entries s) :
    s.filePrepRequests = [] ∧ s.pendingSymlinks = [] := by
  obtain ⟨start, onDisk, scanned⟩ := caused.caused
  refine ⟨not_not.mp fun some => ?_, not_not.mp fun some => ?_⟩
  · obtain ⟨entry, listed, content, time, mtime, file, accepted, dated, asks⟩ := scanned.requests some
    rw [onDisk] at file dated
    obtain ⟨names, nonempty, walkable, rfl⟩ := caused.walked.sound entry listed
    obtain ⟨node, present, -⟩ := walkable.kind
    rw [caused.reaches.metadata_present nonempty present, Except.ok.injEq] at file
    subst node
    rw [(caused.reaches.file_present nonempty present).2, Except.ok.injEq] at dated
    subst mtime
    have skips := settled.files l names content time caused.reaches ⟨nonempty, present, walkable.included, accepted⟩
    rw [entryRemotePath_below present] at asks
    exact Bool.false_ne_true (asks.symm.trans skips)
  · obtain ⟨entry, listed, found, time, link, asks⟩ := scanned.links some
    rw [onDisk] at link
    obtain ⟨names, nonempty, walkable, rfl⟩ := caused.walked.sound entry listed
    obtain ⟨node, present, -⟩ := walkable.kind
    rw [caused.reaches.metadata_present nonempty present, Except.ok.injEq] at link
    subst node
    have skips := settled.links l names found time caused.reaches nonempty present walkable.included
    rw [entryRemotePath_below present] at asks
    exact Bool.false_ne_true (asks.symm.trans skips)

namespace Still

/-- Only the time passes while nothing is waiting. -/
theorem get {Q : PushState ρ → Prop} (holds : ∀ world, Q (s.withWorld world)) :
    Triple (Still s) (Proc.get : PushProgram ρ (PushState ρ)) (fun u t => Still s t ∧ Q u) (fun _ => Still s) :=
  Triple.get fun t still => ⟨still, by obtain ⟨world, -, rfl⟩ := still; exact holds world⟩

theorem bind {α β : Type} {x : PushProgram ρ α} {f : α → PushProgram ρ β} {F : α → Prop}
    (first : Triple (Still s) x (fun a t => Still s t ∧ F a) (fun _ => Still s))
    (second : ∀ a, F a → Triple (Still s) (f a) (fun _ => Still s) (fun _ => Still s)) :
    Triple (Still s) (x >>= f) (fun _ => Still s) (fun _ => Still s) :=
  Triple.bind first fun a => Triple.assume (fun _ holds => holds.2) fun known =>
    (second a known).weaken fun _ holds => holds.1

theorem pushPreparedFiles (requests : s.filePrepRequests = []) (batch : s.pendingBatch.files = [])
    (updates : s.pendingMetadataUpdates = []) :
    Triple (Still s) (pushPreparedFiles env ctx) (fun _ => Still s) (fun _ => Still s) := by
  refine bind (F := fun u => u.filePrepRequests = []) (get fun _ => requests) fun u none =>
    bind (onWorld_still arrange_unmoved) fun arranged perm => ?_
  rw [none] at perm
  rw [List.perm_nil.mp perm]
  refine Triple.bind (Q := fun _ => Still s) (Triple.ret fun _ => id) fun _ =>
    Triple.bind (Q := fun _ => Still s) ?_ fun _ => ?_
  · refine bind (F := fun u => u.pendingBatch.files = []) (get fun _ => batch) fun u empty => ?_
    exact Triple.ite (fun _ => Triple.ret fun _ => id) fun some => absurd empty some
  · refine bind (F := fun u => u.pendingMetadataUpdates = []) (get fun _ => updates) fun u empty => ?_
    exact Triple.ite (fun _ => Triple.ret fun _ => id) fun some => absurd empty some

theorem pushPendingSymlinks (links : s.pendingSymlinks = []) :
    Triple (Still s) (pushPendingSymlinks env ctx) (fun _ => Still s) (fun _ => Still s) := by
  refine bind (F := fun u => u.pendingSymlinks = []) (get fun _ => links) fun u none =>
    bind (onWorld_still arrange_unmoved) fun arranged perm => ?_
  rw [none] at perm
  rw [List.perm_nil.mp perm]
  exact Triple.ret fun _ => id

theorem propagateDeletes (spared : ∀ path ∈ s.metadataByPath.paths, isDeletedLocally ctx s.seenRemotePaths path = false) :
    Triple (Still s) (propagateDeletes env ctx) (fun _ => Still s) (fun _ => Still s) := by
  refine bind (F := fun u => u.metadataByPath = s.metadataByPath ∧ u.seenRemotePaths = s.seenRemotePaths)
    (get fun _ => ⟨rfl, rfl⟩) fun u same => bind (onWorld_still arrange_unmoved) fun recorded perm => ?_
  refine Triple.forEach_keep _ recorded fun path inside => Triple.when (fun deleted => ?_) fun _ _ => id
  rw [same.1] at perm
  rw [same.2, spared path (perm.mem_iff.mp inside)] at deleted
  cases deleted

/-- A push with nothing to do does nothing after the scan. -/
theorem pushScanned (requests : s.filePrepRequests = []) (batch : s.pendingBatch.files = [])
    (updates : s.pendingMetadataUpdates = []) (links : s.pendingSymlinks = []) (noMigration : ctx.migration = none)
    (spared : ctx.relationship.deletePropagation.localToRemote = true →
      ∀ path ∈ s.metadataByPath.paths, isDeletedLocally ctx s.seenRemotePaths path = false) :
    Triple (Still s) (pushScanned env ctx) (fun _ => Still s) (fun _ => Still s) := by
  refine Triple.bind (pushPreparedFiles requests batch updates) fun _ => ?_
  refine Triple.bind (pushPendingSymlinks links) fun _ => ?_
  refine Triple.bind (Q := fun _ => Still s) ?_ fun _ => Triple.bind (Q := fun _ => Still s) ?_ fun _ => ?_
  · refine bind (get (Q := fun _ => True) fun _ => trivial) fun u _ => ?_
    rw [noMigration]
    exact Triple.ret fun _ => id
  · exact Triple.when (fun propagates => propagateDeletes (spared propagates)) fun _ _ => id
  · refine bind (get (Q := fun _ => True) fun _ => trivial) fun u _ => Triple.when (fun pending => ?_) fun _ _ => id
    rw [noMigration] at pending
    cases pending.1

end Still

namespace PushCaused

/-- The file of a request must be recorded at the end, and no other entry had its path before. -/
def recordedTarget (view : ρ → Text → Option RemoteEntry) (w : World ρ) (path : Text) (entry : PathBuf)
    (content : Bytes) (modified : Int) : Target ρ :=
  { fileTarget view w path entry content modified with apart := True }

variable (caused : PushCaused env relationship others mode w config l entries s)
include caused

theorem tracked_recorded (spec : EngineSpec env.digest hashPrefix env.engine view)
    (distinct : PathsApart relationship others w.disk l) (truthful : RecordsTruthful env view w)
    {request : PushFilePrepRequest} (inside : request ∈ s.filePrepRequests) (content : Bytes) :
    Tracked env view (recordedTarget view w request.remotePath request.entryPath content request.modifiedAt)
      False [] [] s.filePrepRequests s := by
  have waiting := caused.tracked_request spec distinct truthful inside content
  obtain ⟨start, -, inv⟩ := caused.scanned
  have noBatch : s.pendingBatch.files = [] := by
    rw [inv.batch]
    rfl
  obtain ⟨entry, -, asked⟩ := inv.requests request inside
  have stored : s.world.store.files.find request.remotePath = request.storedMeta := by
    rw [caused.begun.store, asked.storedMeta]
  refine ⟨waiting.disk, waiting.log, ?_, ?_, waiting.single, ?_⟩
  · rw [noBatch]
    exact fun _ listed => (List.not_mem_nil listed).elim
  · rw [inv.updates]
    exact fun _ listed => (List.not_mem_nil listed).elim
  · refine .waiting trivial request inside rfl ?_ (fun m known equal => ?_) (fun m known => ?_) fun _ => stored
    · rw [inv.updates]
      exact fun _ listed => (List.not_mem_nil listed).elim
    · obtain ⟨entry, present, same⟩ := truthful request.remotePath m (by rw [← caused.begun.store, stored, known])
      exact ⟨entry, (congrFun (caused.view_eq spec) _).trans present, same.trans equal⟩
    · exact stored.symm.trans known

theorem considerate_recorded (noMigration : w.store.migration = none) (distinct : PathsApart relationship others w.disk l)
    {request : PushFilePrepRequest} (inside : request ∈ s.filePrepRequests) (content : Bytes) :
    ∀ other ∈ s.filePrepRequests, Considerate env
      (recordedTarget view w request.remotePath request.entryPath content request.modifiedAt) other := by
  intro other among
  have considerate : Considerate env
      (fileTarget view w request.remotePath request.entryPath content request.modifiedAt) other :=
    caused.considerate_request distinct inside (caused.notTaken noMigration request.remotePath content) other among
  refine ⟨considerate.legacy, considerate.own, fun _ _ => ?_, considerate.differ⟩
  rw [caused.migrationOld_none noMigration among]
  exact Option.some_ne_none _ ∘ Eq.symm

omit caused in
/-- A file that has been pushed is recorded. -/
theorem filesDone_recorded {t : Target ρ} {next : PushState ρ} (done : FilesDone env view t s next) (wanted : t.wanted)
    (apart : t.apart) : next.errors ≠ [] ∨
      ∃ record, next.world.store.files.find t.path = some record ∧ t.Fresh env record := by
  cases done.stage with
  | waiting _ _ inside => cases inside
  | queued _ _ inside => cases inside
  | settled _ _ _ recorded =>
      rcases recorded with ⟨_, inside, -⟩ | ⟨fresh, some⟩
      · cases inside
      · obtain ⟨record, known⟩ := Option.ne_none_iff_exists'.mp (some apart)
        exact Or.inr ⟨record, known, fresh record known⟩
  | failed _ _ failed => exact Or.inl failed
  | untracked _ _ unwanted => exact absurd wanted unwanted
  | lost _ _ unwanted => exact absurd wanted unwanted
  | leaving now => exact now.elim

/-- A path with neither a request nor a symlink keeps its record until the deletions, or there is an error. -/
theorem record_kept (spec : EngineSpec env.digest hashPrefix env.engine view)
    (injective : Function.Injective env.digest) (noMigration : w.store.migration = none) {path : Text}
    (absent : ∀ request ∈ s.filePrepRequests, request.remotePath ≠ path)
    (unlinked : ∀ link ∈ s.pendingSymlinks, link.remotePath ≠ path) :
    Triple (· = s) (pushScanned env (pushContext relationship others mode config w))
      (fun _ last => ∃ next : PushState ρ, next.seenRemotePaths = s.seenRemotePaths ∧
        TailOutcome env view path w.log (pushContext relationship others mode config w) next last ∧
        (next.errors ≠ [] ∨ next.world.store.files.find path = w.store.files.find path ∧
          next.metadataByPath.find path = w.store.files.find path))
      (fun _ _ => True) := by
  have apart : ∀ request ∈ s.filePrepRequests, request.migrationOldRemotePath ≠ some path := by
    intro request inside
    rw [caused.migrationOld_none noMigration inside]
    exact Option.some_ne_none _ ∘ Eq.symm
  have tracked : Tracked env view (bareTarget view w True path) False [] [] s.filePrepRequests s :=
    caused.tracked_bare spec absent True
  refine (pushScanned_path spec injective False.elim (caused.chunkHashPrefix spec)
    (caused.considerate_bare True absent fun _ => apart) tracked unlinked).conseq (fun _ => id)
      (fun _ last holds => ?_) fun _ _ _ => trivial
  obtain ⟨next, done, outcome⟩ := holds
  refine ⟨next, done.seen, outcome, (done.unclaimed id).imp_right fun rest => ?_⟩
  rcases rest with ⟨shared, -⟩ | ⟨-, stored, mirror⟩
  · exact absurd trivial shared
  · exact ⟨stored, mirror trivial⟩

/-- An accepted file of the walk can be skipped after the push, or there is an error. -/
theorem file_settles (spec : EngineSpec env.digest hashPrefix env.engine view) (injective : Function.Injective env.digest)
    (distinct : PathsApart relationship others w.disk l) (noMigration : w.store.migration = none)
    (truthful : RecordsTruthful env view w) {names : List OsText} {content : Bytes} {time : Int}
    (file : WalkedFile env relationship others w.disk l names content time) :
    Triple (· = s) (pushScanned env (pushContext relationship others mode config w))
      (fun _ last => last.errors ≠ [] ∨
        canLiteFastSkip .lite (last.world.store.files.find (relationship.remotePathAt names)) content.length time = true)
      (fun _ _ => True) := by
  have named : (pushContext relationship others mode config w).entryRemotePath
      (below relationship.localBase names) = relationship.remotePathAt names := entryRemotePath_below file.present
  obtain ⟨read, modified⟩ := caused.reaches.file_present file.nonempty file.present
  obtain ⟨listed, outcome⟩ := caused.outcome file.nonempty file.present rfl file.included
  rcases outcome with ⟨broken, -⟩ | outcome
  · exact caused.fails broken _
  obtain ⟨seen, rest⟩ := outcome file.accepted
  rw [named] at seen rest
  have unlinked : ∀ link ∈ s.pendingSymlinks, link.remotePath ≠ relationship.remotePathAt names :=
    fun link queued => named ▸ caused.file_ne_link distinct file.nonempty file.present listed queued
  by_cases requested : ∃ request ∈ s.filePrepRequests, request.remotePath = relationship.remotePathAt names
  · obtain ⟨request, inside, own⟩ := requested
    have asked := caused.request_of_entry distinct inside listed (own.trans named.symm)
    have dated := asked.modifiedAt.1
    rw [modified, Except.ok.injEq] at dated
    rw [← own] at seen unlinked ⊢
    refine (pushScanned_path spec injective (fun _ => asked.entryPath.symm ▸ read) (caused.chunkHashPrefix spec)
      (caused.considerate_recorded noMigration distinct inside content)
      (caused.tracked_recorded spec distinct truthful inside content) unlinked).conseq (fun _ => id)
      (fun _ last holds => ?_) fun _ _ _ => trivial
    obtain ⟨next, done, outcome⟩ := holds
    have beside := outcome.beside (by rw [done.seen]; exact seen)
    refine (filesDone_recorded done trivial trivial).imp beside.errors fun ⟨record, known, fresh⟩ => ?_
    refine canLiteFastSkip_iff.mpr ⟨rfl, record, beside.stored.trans known, fresh.syncStatus, fresh.size, ?_⟩
    exact fresh.modifiedAt.trans dated.symm
  · have absent : ∀ request ∈ s.filePrepRequests, request.remotePath ≠ relationship.remotePathAt names :=
      fun request inside own => requested ⟨request, inside, own⟩
    rcases rest with broken | skipped | ⟨request, inside, asked⟩
    · exact caused.fails broken _
    · obtain ⟨mtime, dated, -, skips⟩ := skipped
      rw [modified, Except.ok.injEq] at dated
      subst mtime
      refine (caused.record_kept spec injective noMigration absent unlinked).strengthen fun _ last holds => ?_
      obtain ⟨next, kept, outcome, same⟩ := holds
      have beside := outcome.beside (by rw [kept]; exact seen)
      refine same.imp beside.errors fun ⟨stored, _⟩ => ?_
      rw [beside.stored, stored]
      exact canLiteFastSkip_iff.mpr ⟨rfl, (canLiteFastSkip_iff.mp skips).2⟩
    · exact absurd (asked.remotePath.trans named) (absent request inside)

/-- A symlink of the walk can be skipped after the push, or there is an error. -/
theorem symlink_settles (spec : EngineSpec env.digest hashPrefix env.engine view)
    (injective : Function.Injective env.digest) (distinct : PathsApart relationship others w.disk l)
    (noMigration : w.store.migration = none) {names : List OsText} {found : OsText} {time : Int} (nonempty : names ≠ [])
    (present : w.disk.node (l ++ names) = some (.symlink found time))
    (included : isLocalExcludedByChild (below relationship.localBase names)
      (childLocalExclusions relationship others) = false) :
    Triple (· = s) (pushScanned env (pushContext relationship others mode config w))
      (fun _ last => last.errors ≠ [] ∨
        canLiteFastSkipSymlink .lite (last.world.store.files.find (relationship.remotePathAt names))
          (symlinkIdentityHash env.digest (relationship.remotePathAt names) (toStringLossy found)) = true)
      (fun _ _ => True) := by
  have named : (pushContext relationship others mode config w).entryRemotePath
      (below relationship.localBase names) = relationship.remotePathAt names := entryRemotePath_below present
  have read := caused.reaches.metadata_present nonempty present
  obtain ⟨listed, outcome⟩ := caused.outcome nonempty present rfl included
  rcases outcome with ⟨broken, -⟩ | ⟨seen, rest⟩
  · exact caused.fails broken _
  rw [named] at seen rest
  have absent : ∀ request ∈ s.filePrepRequests, request.remotePath ≠ relationship.remotePathAt names := by
    intro request inside own
    obtain ⟨content, moment, file⟩ := (caused.request_of_entry distinct inside listed (own.trans named.symm)).isFile
    rw [read] at file
    cases file
  by_cases linked : ∃ link ∈ s.pendingSymlinks, link.remotePath = relationship.remotePathAt names
  · obtain ⟨link, queued, own⟩ := linked
    have linkFound := caused.link_of_entry distinct queued listed (own.trans named.symm)
    have considerate : ∀ request ∈ s.filePrepRequests, Considerate env (bareTarget view w False _) request :=
      caused.considerate_bare False absent False.elim
    obtain ⟨start, -, inv⟩ := caused.scanned
    refine (pushScanned_link spec injective False.elim (caused.chunkHashPrefix spec) considerate
      (caused.tracked_bare spec absent False) own queued (inv.linkSeen link queued) (caused.link_count distinct _)
      linkFound.contentHash).conseq (fun _ => id) (fun _ last holds => ?_) fun _ _ _ => trivial
    obtain ⟨target, moment, same, equal⟩ := linkFound.target
    rw [read, Except.ok.injEq, Node.symlink.injEq] at same
    refine holds.2.imp_right fun ⟨_, time, known⟩ => ?_
    rw [own] at known
    refine canLiteFastSkipSymlink_iff.mpr ⟨rfl, _, known, rfl, ?_⟩
    show link.contentHash = _
    rw [linkFound.contentHash, equal, ← same.1, own]
  · have unlinked : ∀ link ∈ s.pendingSymlinks, link.remotePath ≠ relationship.remotePathAt names :=
      fun link queued own => linked ⟨link, queued, own⟩
    rcases rest with broken | skips | ⟨link, queued, linkFound⟩
    · exact caused.fails broken _
    · refine (caused.record_kept spec injective noMigration absent unlinked).strengthen fun _ last holds => ?_
      obtain ⟨next, kept, outcome, same⟩ := holds
      have beside := outcome.beside (by rw [kept]; exact seen)
      refine same.imp beside.errors fun ⟨stored, _⟩ => ?_
      rw [beside.stored, stored]
      exact canLiteFastSkipSymlink_iff.mpr ⟨rfl, (canLiteFastSkipSymlink_iff.mp skips).2⟩
    · exact absurd (linkFound.remotePath.trans named) (unlinked link queued)

/-- What is still recorded after the push has its entry or belongs to a child relationship, or there is an error. -/
theorem record_settles (spec : EngineSpec env.digest hashPrefix env.engine view)
    (injective : Function.Injective env.digest) (noMigration : w.store.migration = none)
    (propagates : relationship.deletePropagation.localToRemote = true) (path : Text) :
    Triple (· = s) (pushScanned env (pushContext relationship others mode config w))
      (fun _ last => last.errors ≠ [] ∨ (path ∈ last.world.store.files.paths →
        isExcludedByChild path (childExclusions relationship others) = true ∨ WalkedAt env relationship others w.disk path))
      (fun _ _ => True) := by
  by_cases seen : path ∈ s.seenRemotePaths
  · exact Triple.trivially (fun _ _ => Or.inr fun _ => Or.inr (caused.walkedAt seen)) fun _ _ => trivial
  obtain ⟨start, -, inv⟩ := caused.scanned
  have unrequested : ∀ request ∈ s.filePrepRequests, request.remotePath ≠ path :=
    fun request inside own => seen (own ▸ inv.requestSeen request inside)
  have unlinked : ∀ link ∈ s.pendingSymlinks, link.remotePath ≠ path :=
    fun link queued own => seen (own ▸ inv.linkSeen link queued)
  refine (caused.record_kept spec injective noMigration unrequested unlinked).strengthen fun _ last holds => ?_
  obtain ⟨next, kept, outcome, same⟩ := holds
  cases outcome with
  | kept beside spared =>
      refine same.imp beside.errors fun held known => Or.inl ?_
      obtain ⟨stored, mirror⟩ := held
      obtain ⟨record, found⟩ := Records.mem_paths.mp known
      rw [beside.stored, stored] at found
      by_contra uncovered
      refine spared ⟨propagates, ?_, ?_⟩
      · rw [mirror, found]
        exact Option.some_ne_none _
      · simpa [isDeletedLocally, kept, seen, pushContext, noMigration] using uncovered
  | deleted later counts gone =>
      refine gone.imp_right fun left known => ?_
      obtain ⟨-, absent⟩ := left
      obtain ⟨record, found⟩ := Records.mem_paths.mp known
      rw [absent] at found
      cases found
  | forgotten later unseen migrates => exact absurd noMigration migrates

end PushCaused

/-- The metadata of every entry below the local directory can be read. -/
def EntriesReadable (env : Env ρ) (relationship : SyncRelationship) : Prop :=
  ∀ names tick, env.diskFault .symlinkMetadata (below relationship.localBase names) tick = none

theorem WalkedAt.seen (readable : EntriesReadable env relationship) {path : Text}
    (walked : WalkedAt env relationship others w.disk path)
    (ready : PushReady env relationship others mode w config l entries s) : path ∈ s.seenRemotePaths := by
  obtain ⟨root, names, node, reaches, nonempty, present, included, equal, kind⟩ := walked
  exact CertainlySeen.seen ⟨root, names, node, reaches, nonempty, present, included, equal, readable names, kind⟩ ready

/-- A lite push of a settled directory asks the engine for its configuration and does nothing else. -/
theorem PushSettled.rests (settled : PushSettled env relationship others w.disk w.store)
    (readable : EntriesReadable env relationship) :
    PushBegun env w (pushSync env relationship others .lite w).2 := by
  have run : Triple (· = w) (pushSync env relationship others .lite) (fun _ => PushBegun env w)
      (fun _ => PushBegun env w) := by
    refine pushSync_caused (fun _ _ => id) fun config l entries s caused => ?_
    obtain ⟨requests, links⟩ := settled.idle caused
    obtain ⟨start, -, inv⟩ := caused.scanned
    have batch : s.pendingBatch.files = [] := by
      rw [inv.batch]
      rfl
    refine (Still.pushScanned requests batch inv.updates links settled.migration fun propagates path known => ?_).conseq
      (fun t equal => ⟨s.world, .refl _, equal⟩) (fun _ t still => ?_) fun _ t still => ?_
    · rw [inv.records_eq] at known
      rcases settled.records propagates path known with excluded | walked
      · simp [isDeletedLocally, pushContext, excluded]
      · simp [isDeletedLocally, walked.seen readable caused.toPushReady]
    all_goals
      obtain ⟨world, unmoved, rfl⟩ := still
      exact caused.begun.unmoved unmoved
  exact run.reached rfl

/-- A push without errors settles the directory. -/
theorem pushSync_settled (spec : EngineSpec env.digest hashPrefix env.engine view) (injective : Function.Injective env.digest)
    (utf8 : ∀ l, w.disk.resolve true relationship.localBase = .ok l → Utf8Names w.disk l)
    (noMigration : w.store.migration = none) (truthful : RecordsTruthful env view w)
    (clean : CompletesCleanly (pushSync env relationship others mode w).1) :
    PushSettled env relationship others w.disk (pushSync env relationship others mode w).2.store := by
  have located : ∀ {config root l entries s}, PushCaused env relationship others mode w config root entries s →
      w.disk.Reaches relationship.localBase l → root = l :=
    fun caused reaches => Except.ok.inj (caused.reaches.here.symm.trans reaches.here)
  refine ⟨?_, fun l names content time reaches file => ?_, fun l names found time reaches nonempty present included => ?_,
    fun propagates path known => ?_⟩
  · rcases (pushSync_recordsOnly env relationship others mode w).migration with same | none
    · exact same.trans noMigration
    · exact none
  · obtain ⟨result, clear, skips⟩ := pushSync_cleanly (Q := fun result next => result.errors ≠ [] ∨
      canLiteFastSkip .lite (next.store.files.find (relationship.remotePathAt names)) content.length time = true) clean
      fun config root entries s caused => by
        obtain rfl := located caused reaches
        exact caused.file_settles spec injective (utf8 _ reaches.here).pathsApart noMigration truthful file
    exact skips.resolve_left (absurd clear)
  · obtain ⟨result, clear, skips⟩ := pushSync_cleanly (Q := fun result next => result.errors ≠ [] ∨
      canLiteFastSkipSymlink .lite (next.store.files.find (relationship.remotePathAt names))
        (symlinkIdentityHash env.digest (relationship.remotePathAt names) (toStringLossy found)) = true) clean
      fun config root entries s caused => by
        obtain rfl := located caused reaches
        exact caused.symlink_settles spec injective (utf8 _ reaches.here).pathsApart noMigration nonempty present included
    exact skips.resolve_left (absurd clear)
  · obtain ⟨result, clear, explained⟩ := pushSync_cleanly (Q := fun result next => result.errors ≠ [] ∨
      (path ∈ next.store.files.paths → isExcludedByChild path (childExclusions relationship others) = true ∨
        WalkedAt env relationship others w.disk path)) clean
      fun config root entries s caused => caused.record_settles spec injective noMigration propagates path
    exact explained.resolve_left (absurd clear) known

/-- What may come after a push: another one, and changes that others make to the remote. -/
inductive LaterAction (ρ : Type) where
  | push
  | others (remote : ρ)

def laterStep (env : Env ρ) (relationship : SyncRelationship) (others : List SyncRelationship) (w : World ρ) :
    LaterAction ρ → Option (World ρ)
  | .push => some (pushSync env relationship others .lite w).2
  | .others remote => some { w with remote := remote }

/-- The pushes ask for the configuration of the engine only. -/
def remoteAfter (env : Env ρ) (remote : ρ) (actions : List (LaterAction ρ)) : ρ :=
  actions.foldl (fun remote action => match action with
    | .push => (env.engine.blobConfig remote).2
    | .others changed => changed) remote

/-- Another client empties the remote between two pushes. -/
def emptiedBetween : List (LaterAction Shelf) := [.push, .others (Shelf.holding []), .push]

end AeordbSync

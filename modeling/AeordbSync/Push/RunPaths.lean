import AeordbSync.Push.FocusRun

namespace AeordbSync
open Characters OsPath FileSystem Effect

variable {ρ : Type} {env : Env ρ} {view : ρ → Text → Option RemoteEntry} {hashPrefix : Text}
  {relationship : SyncRelationship} {others : List SyncRelationship} {mode : PushScanMode}
  {w : World ρ} {config : BlobConfig} {l : Location} {entries : List PathBuf} {s : PushState ρ}

/-- Every record, whatever its status, describes what the remote holds at its path. -/
def RecordsTruthful (env : Env ρ) (view : ρ → Text → Option RemoteEntry) (w : World ρ) : Prop :=
  ∀ path record, w.store.files.find path = some record →
    Holds env.digest (view w.remote) path record.contentHash

theorem recordsTruthful_of_list
    (all : ∀ record ∈ w.store.files.list, (view w.remote record.path).map
      (RemoteEntry.identity env.digest record.path) = some record.contentHash) :
    RecordsTruthful env view w := by
  intro path record found
  have same := Records.path_of_find found
  subst path
  exact holds_iff.mpr (all record (Records.mem_list.mpr found))

def fileTarget (view : ρ → Text → Option RemoteEntry) (w : World ρ) (path : Text) (entry : PathBuf)
    (content : Bytes) (modified : Int) : Target ρ where
  path := path
  entry := entry
  content := content
  modified := modified
  wanted := True
  apart := False
  disk := w.disk
  log := w.log
  there := view w.remote path
  record := w.store.files.find path

/-- No file of the run belongs to the path. -/
def bareTarget (view : ρ → Text → Option RemoteEntry) (w : World ρ) (apart : Prop) (path : Text) :
    Target ρ where
  path := path
  entry := []
  content := []
  modified := 0
  wanted := False
  apart := apart
  disk := w.disk
  log := w.log
  there := view w.remote path
  record := w.store.files.find path

/-- No other entry that had the path before a migration has the content that the path is to have. -/
def NotTaken (env : Env ρ) (disk : Tree) (requests : List PushFilePrepRequest) (path : Text)
    (content : Bytes) : Prop :=
  ∀ request ∈ requests, request.remotePath ≠ path → request.migrationOldRemotePath = some path →
    request.storedMeta = none → ∀ bytes, disk.read request.entryPath = .ok bytes →
    env.digest bytes ≠ env.digest content

/-- A file of the walk that the filter lets pass. -/
structure WalkedFile (env : Env ρ) (relationship : SyncRelationship) (others : List SyncRelationship)
    (disk : Tree) (l : Location) (names : List OsText) (content : Bytes) (time : Int) : Prop where
  nonempty : names ≠ []
  present : disk.node (l ++ names) = some (.file content time)
  included : isLocalExcludedByChild (below relationship.localBase names)
    (childLocalExclusions relationship others) = false
  accepted : Accepted env relationship (below relationship.localBase names)

/-- A file whose size and time equal those of its record has the content that the record names. -/
def SkipsTrusted (env : Env ρ) (relationship : SyncRelationship) (others : List SyncRelationship)
    (w : World ρ) : Prop :=
  ∀ l names content time record, w.disk.Reaches relationship.localBase l →
    WalkedFile env relationship others w.disk l names content time →
    w.store.files.find (relationship.remotePathAt names) = some record → record.syncStatus = .synced →
    record.size = content.length → record.modifiedAt = time → record.contentHash = env.digest content

theorem canLiteFastSkip_iff {mode : PushScanMode} {stored : Option FileSyncMeta} {fileSize : Nat}
    {modifiedAt : Int} : canLiteFastSkip mode stored fileSize modifiedAt = true ↔ mode = .lite ∧
      ∃ record, stored = some record ∧ record.syncStatus = .synced ∧ record.size = fileSize ∧
        record.modifiedAt = modifiedAt := by
  cases mode <;> cases stored <;> simp [canLiteFastSkip]

theorem canLiteFastSkipSymlink_iff {mode : PushScanMode} {stored : Option FileSyncMeta} {contentHash : Text} :
    canLiteFastSkipSymlink mode stored contentHash = true ↔ mode = .lite ∧
      ∃ record, stored = some record ∧ record.syncStatus = .synced ∧ record.contentHash = contentHash := by
  cases mode <;> cases stored <;> simp [canLiteFastSkipSymlink]

namespace PushReady

variable (ready : PushReady env relationship others mode w config l entries s)
include ready

/-- A request was made for one file of the walk. -/
theorem requested {request : PushFilePrepRequest} (inside : request ∈ s.filePrepRequests) :
    ∃ names content time, WalkedFile env relationship others w.disk l names content time ∧
      below relationship.localBase names ∈ entries ∧
      Requested env (pushContext relationship others mode config w) w.disk w.store.files
        (below relationship.localBase names) request := by
  obtain ⟨start, onDisk, inv⟩ := ready.scanned
  obtain ⟨entry, listed, asked⟩ := inv.requests request inside
  rw [onDisk] at asked
  obtain ⟨names, nonempty, walkable, rfl⟩ := ready.walked.sound entry listed
  obtain ⟨node, present, -⟩ := walkable.kind
  obtain ⟨content, time, found⟩ := asked.isFile
  rw [ready.reaches.metadata_present nonempty present, Except.ok.injEq] at found
  subst node
  exact ⟨names, content, time, ⟨nonempty, present, walkable.included, asked.accepted⟩, listed, asked⟩

theorem legacy_none {request : PushFilePrepRequest} (inside : request ∈ s.filePrepRequests) :
    request.legacySeparatorRemotePath = none := by
  obtain ⟨names, content, time, file, -, asked⟩ := ready.requested inside
  obtain ⟨relative, stripped, equal⟩ := asked.legacy
  have valid : ∀ name ∈ names, IsName name :=
    w.disk.names_valid (l := l) (by rw [file.present]; exact Option.some_ne_none _)
  have known := stripPrefix_below relationship.localBase valid
  rw [show (pushContext relationship others mode config w).localBase = relationship.localBase from rfl,
    known, Option.some.injEq] at stripped
  rw [equal, ← stripped]
  exact computeLegacySeparatorRemotePath_names _

theorem readable {request : PushFilePrepRequest} (inside : request ∈ s.filePrepRequests) :
    ∃ content, w.disk.read request.entryPath = .ok content := by
  obtain ⟨names, content, time, file, -, asked⟩ := ready.requested inside
  rw [asked.entryPath]
  exact ⟨content, (ready.reaches.file_present file.nonempty file.present).1⟩

theorem request_count (distinct : PathsApart relationship others w.disk l) (path : Text) :
    (s.filePrepRequests.map PushFilePrepRequest.remotePath).count path ≤ 1 := by
  obtain ⟨start, -, inv⟩ := ready.scanned
  have sub := inv.requestPaths
  rw [List.map_nil, List.append_nil] at sub
  exact List.nodup_iff_count_le_one.mp (sub.nodup (ready.paths_nodup distinct)) path

theorem link_count (distinct : PathsApart relationship others w.disk l) (path : Text) :
    (s.pendingSymlinks.map PendingSymlink.remotePath).count path ≤ 1 := by
  obtain ⟨start, -, inv⟩ := ready.scanned
  have sub := inv.linkPaths
  rw [List.map_nil, List.append_nil] at sub
  exact List.nodup_iff_count_le_one.mp (sub.nodup (ready.paths_nodup distinct)) path

/-- A request for the path of an entry was made for this entry. -/
theorem request_of_entry (distinct : PathsApart relationship others w.disk l) {request : PushFilePrepRequest} {entry : PathBuf}
    (inside : request ∈ s.filePrepRequests) (listed : entry ∈ entries)
    (own : request.remotePath = (pushContext relationship others mode config w).entryRemotePath entry) :
    Requested env (pushContext relationship others mode config w) w.disk w.store.files entry request := by
  obtain ⟨start, onDisk, inv⟩ := ready.scanned
  obtain ⟨other, among, asked⟩ := inv.requests request inside
  rw [onDisk] at asked
  rw [asked.remotePath] at own
  exact List.inj_on_of_nodup_map (ready.paths_nodup distinct) among listed own ▸ asked

theorem link_of_entry (distinct : PathsApart relationship others w.disk l) {link : PendingSymlink} {entry : PathBuf}
    (queued : link ∈ s.pendingSymlinks) (listed : entry ∈ entries)
    (own : link.remotePath = (pushContext relationship others mode config w).entryRemotePath entry) :
    LinkQueued env (pushContext relationship others mode config w) w.disk entry link := by
  obtain ⟨start, onDisk, inv⟩ := ready.scanned
  obtain ⟨other, among, found⟩ := inv.links link queued
  rw [onDisk] at found
  rw [found.remotePath] at own
  exact List.inj_on_of_nodup_map (ready.paths_nodup distinct) among listed own ▸ found

/-- The path of a file is not the path of a symlink of the run. -/
theorem file_ne_link (distinct : PathsApart relationship others w.disk l) {names : List OsText} {content : Bytes} {time : Int}
    (nonempty : names ≠ []) (present : w.disk.node (l ++ names) = some (.file content time))
    (listed : below relationship.localBase names ∈ entries) {link : PendingSymlink}
    (queued : link ∈ s.pendingSymlinks) :
    link.remotePath ≠ (pushContext relationship others mode config w).entryRemotePath
      (below relationship.localBase names) := by
  intro own
  obtain ⟨target, moment, read, -⟩ := (ready.link_of_entry distinct queued listed own).target
  rw [ready.reaches.metadata_present nonempty present] at read
  cases read

theorem request_ne_link (distinct : PathsApart relationship others w.disk l) {request : PushFilePrepRequest} {link : PendingSymlink}
    (inside : request ∈ s.filePrepRequests) (queued : link ∈ s.pendingSymlinks) :
    link.remotePath ≠ request.remotePath := by
  obtain ⟨names, content, time, file, listed, asked⟩ := ready.requested inside
  rw [asked.remotePath]
  exact ready.file_ne_link distinct file.nonempty file.present listed queued

/-- Before the file phase a requested path is waiting. -/
theorem tracked_request (spec : EngineSpec env.digest hashPrefix env.engine view)
    (distinct : PathsApart relationship others w.disk l) (truthful : RecordsTruthful env view w)
    {request : PushFilePrepRequest} (inside : request ∈ s.filePrepRequests) (content : Bytes) :
    Tracked env view (fileTarget view w request.remotePath request.entryPath content request.modifiedAt)
      False [] [] s.filePrepRequests s := by
  have count := ready.request_count distinct request.remotePath
  obtain ⟨start, -, inv⟩ := ready.scanned
  obtain ⟨entry, -, asked⟩ := inv.requests request inside
  have stored : s.world.store.files.find request.remotePath = request.storedMeta := by
    rw [ready.begun.store, asked.storedMeta]
  have noBatch : s.pendingBatch.files = [] := by rw [inv.batch]; rfl
  refine ⟨ready.begun.disk, ⟨[], ready.begun.log, fun _ _ listed => (List.not_mem_nil listed).elim⟩, ?_, ?_, ?_, ?_⟩
  · rw [noBatch]
    exact fun _ listed => (List.not_mem_nil listed).elim
  · rw [inv.updates]
    exact fun _ listed => (List.not_mem_nil listed).elim
  · rw [noBatch]
    exact count
  · refine .waiting trivial request inside rfl ?_ (fun m known equal => ?_) (fun m known => ?_) fun _ => stored
    · rw [inv.updates]
      exact fun _ listed => (List.not_mem_nil listed).elim
    · have held := truthful request.remotePath m (by rw [← ready.begun.store, stored, known])
      obtain ⟨entry, present, same⟩ := held
      refine ⟨entry, ?_, same.trans equal⟩
      change view s.world.remote request.remotePath = some entry
      rw [ready.view_eq spec, present]
    · exact stored.symm.trans known

/-- A path without a request is untracked. -/
theorem tracked_bare (spec : EngineSpec env.digest hashPrefix env.engine view) {path : Text}
    (absent : ∀ request ∈ s.filePrepRequests, request.remotePath ≠ path) (apart : Prop) :
    Tracked env view (bareTarget view w apart path) False [] [] s.filePrepRequests s := by
  obtain ⟨start, -, inv⟩ := ready.scanned
  have noBatch : s.pendingBatch.files = [] := by rw [inv.batch]; rfl
  refine ⟨ready.begun.disk, ⟨[], ready.begun.log, fun _ _ listed => (List.not_mem_nil listed).elim⟩, ?_, ?_, ?_, ?_⟩
  · rw [noBatch]
    exact fun _ listed => (List.not_mem_nil listed).elim
  · rw [inv.updates]
    exact fun _ listed => (List.not_mem_nil listed).elim
  · rw [noBatch, List.append_nil, List.map_nil, List.nil_append, List.count_eq_zero.mpr]
    · exact Nat.zero_le _
    · intro listed
      obtain ⟨request, inside, own⟩ := List.mem_map.mp listed
      exact absent request inside own
  · refine .untracked ⟨?_, absent⟩ ?_ id ?_ ?_ fun _ => ?_
    · rw [noBatch]
      exact fun _ listed => (List.not_mem_nil listed).elim
    · rw [inv.updates]
      exact fun _ listed => (List.not_mem_nil listed).elim
    · exact congrFun (ready.view_eq spec) path
    · change s.world.store.files.find path = w.store.files.find path
      rw [ready.begun.store]
    · change s.metadataByPath.find path = w.store.files.find path
      rw [inv.records_eq]

theorem considerate_bare {path : Text} (apart : Prop)
    (absent : ∀ request ∈ s.filePrepRequests, request.remotePath ≠ path)
    (keeps : apart → ∀ request ∈ s.filePrepRequests, request.migrationOldRemotePath ≠ some path) :
    ∀ request ∈ s.filePrepRequests, Considerate env (bareTarget view w apart path) request :=
  fun request inside => ⟨ready.legacy_none inside, fun own => absurd own (absent request inside),
    fun known _ => keeps known request inside, fun wanted => wanted.elim⟩

theorem migrationOld_none (noMigration : w.store.migration = none) {request : PushFilePrepRequest}
    (inside : request ∈ s.filePrepRequests) : request.migrationOldRemotePath = none := by
  obtain ⟨names, _, _, -, -, asked⟩ := ready.requested inside
  rw [asked.migrationOld]
  change w.store.migration.bind _ = none
  rw [noMigration]
  rfl

theorem notTaken (noMigration : w.store.migration = none) (path : Text) (content : Bytes) :
    NotTaken env w.disk s.filePrepRequests path content := by
  intro request inside _ migrates
  rw [ready.migrationOld_none noMigration inside] at migrates
  cases migrates

theorem considerate_request (distinct : PathsApart relationship others w.disk l)
    {request : PushFilePrepRequest} (inside : request ∈ s.filePrepRequests) {content : Bytes}
    (safe : NotTaken env w.disk s.filePrepRequests request.remotePath content) :
    ∀ other ∈ s.filePrepRequests, Considerate env
      (fileTarget view w request.remotePath request.entryPath content request.modifiedAt) other := by
  intro other among
  refine ⟨ready.legacy_none among, fun own => ?_, False.elim, fun _ => safe other among⟩
  have same := eq_of_count_map (f := PushFilePrepRequest.remotePath)
    (ready.request_count distinct request.remotePath) among inside own rfl
  rw [same]
  exact ⟨rfl, rfl⟩

theorem considerate_skipped {path : Text} (entry : PathBuf) {content : Bytes} (modified : Int)
    (absent : ∀ request ∈ s.filePrepRequests, request.remotePath ≠ path)
    (safe : NotTaken env w.disk s.filePrepRequests path content) :
    ∀ request ∈ s.filePrepRequests,
      Considerate env (fileTarget view w path entry content modified) request :=
  fun request inside => ⟨ready.legacy_none inside, fun own => absurd own (absent request inside),
    False.elim, fun _ => safe request inside⟩

/-- A file that the scan has skipped is settled when its record tells its content. -/
theorem tracked_skipped (spec : EngineSpec env.digest hashPrefix env.engine view) {path : Text}
    (entry : PathBuf) {content : Bytes} {record : FileSyncMeta}
    (absent : ∀ request ∈ s.filePrepRequests, request.remotePath ≠ path)
    (held : Holds env.digest (view w.remote) path (env.digest content))
    (known : w.store.files.find path = some record)
    (fresh : (fileTarget view w path entry content record.modifiedAt).Fresh env record) :
    Tracked env view (fileTarget view w path entry content record.modifiedAt) False [] []
      s.filePrepRequests s := by
  obtain ⟨start, -, inv⟩ := ready.scanned
  have noBatch : s.pendingBatch.files = [] := by rw [inv.batch]; rfl
  refine ⟨ready.begun.disk, ⟨[], ready.begun.log, fun _ _ listed => (List.not_mem_nil listed).elim⟩, ?_, ?_, ?_, ?_⟩
  · rw [noBatch]
    exact fun _ listed => (List.not_mem_nil listed).elim
  · rw [inv.updates]
    exact fun _ listed => (List.not_mem_nil listed).elim
  · rw [noBatch, List.append_nil, List.map_nil, List.nil_append, List.count_eq_zero.mpr]
    · exact Nat.zero_le _
    · intro listed
      obtain ⟨request, inside, own⟩ := List.mem_map.mp listed
      exact absent request inside own
  · refine .settled trivial ⟨?_, absent⟩ ?_ (Or.inr ⟨fun m stored => ?_, False.elim⟩)
    · rw [noBatch]
      exact fun _ listed => (List.not_mem_nil listed).elim
    · obtain ⟨there, present, same⟩ := held
      exact ⟨there, (congrFun (ready.view_eq spec) path).trans present, same⟩
    · change s.world.store.files.find path = some m at stored
      rw [ready.begun.store, known, Option.some.injEq] at stored
      exact stored ▸ fresh

end PushReady

end AeordbSync

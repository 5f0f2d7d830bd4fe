import AeordbSync.Push.RunRules

namespace AeordbSync
open Characters OsPath FileSystem Effect

variable {ρ : Type}

/-- One remote path during a push, with the local file that may belong to it. -/
structure Target (ρ : Type) where
  path : Text
  entry : PathBuf
  content : Bytes
  modified : Int
  /-- The remote is to hold the content at the end. -/
  wanted : Prop
  /-- No other entry of the run had this path before a migration. -/
  apart : Prop
  disk : Tree
  log : List (Event ρ)
  there : Option RemoteEntry
  record : Option FileSyncMeta

namespace Target

variable (env : Env ρ) (t : Target ρ)

def hash : Text := env.digest t.content

def HeldBy (there : Option RemoteEntry) : Prop :=
  ∃ entry, there = some entry ∧ entry.identity env.digest t.path = t.hash env

structure Carries (file : PendingPushFile) : Prop where
  localPath : file.localPath = t.entry
  contentHash : file.contentHash = t.hash env
  fileSize : file.fileSize = t.content.length
  modifiedAt : file.modifiedAt = t.modified

structure Fresh (record : FileSyncMeta) : Prop where
  contentHash : record.contentHash = t.hash env
  size : record.size = t.content.length
  modifiedAt : record.modifiedAt = t.modified
  syncStatus : record.syncStatus = .synced

theorem Carries.fresh {env : Env ρ} {t : Target ρ} {file : PendingPushFile} (carries : t.Carries env file)
    (time : Int) : t.Fresh env (syncedMeta file time) :=
  ⟨carries.contentHash, carries.fileSize, carries.modifiedAt, rfl⟩

end Target

/-- A refused upload of the path was taken for an answer that must not be tried again. -/
def Excused (path : Text) (log : List (Event ρ)) : Prop :=
  ∃ error, .uploadFailed path error ∈ log ∧ isForbidden path error = true

/-- Every synced record written for the path since the start told what the remote held. -/
def LogTrue (env : Env ρ) (view : ρ → Text → Option RemoteEntry) (path : Text) (log : List (Event ρ))
    (w : World ρ) : Prop :=
  ∃ new, w.log = new ++ log ∧ ∀ record remote, .recorded record remote ∈ new → record.path = path →
    record.syncStatus = .synced →
    Holds env.digest (view remote) path record.contentHash ∨ Excused path new

namespace LogTrue

variable {env : Env ρ} {view : ρ → Text → Option RemoteEntry} {path : Text} {log : List (Event ρ)}
  {w next : World ρ}

theorem refl (w : World ρ) (path : Text) : LogTrue env view path w.log w :=
  ⟨[], rfl, fun _ _ inside => (List.not_mem_nil inside).elim⟩

theorem congr (before : LogTrue env view path log w) (same : next.log = w.log) :
    LogTrue env view path log next := by
  obtain ⟨new, equal, all⟩ := before
  exact ⟨new, same.trans equal, all⟩

theorem append (before : LogTrue env view path log w) (events : List (Event ρ))
    (equal : next.log = events ++ w.log)
    (mine : ∀ new, w.log = new ++ log → ∀ record remote, .recorded record remote ∈ events →
      record.path = path → record.syncStatus = .synced →
      Holds env.digest (view remote) path record.contentHash ∨ Excused path (events ++ new)) :
    LogTrue env view path log next := by
  obtain ⟨new, old, all⟩ := before
  refine ⟨events ++ new, by rw [equal, old, List.append_assoc], fun record remote inside own synced => ?_⟩
  rcases List.mem_append.mp inside with fresh | earlier
  · exact mine new old record remote fresh own synced
  · refine (all record remote earlier own synced).imp_right ?_
    rintro ⟨error, listed, forbidden⟩
    exact ⟨error, List.mem_append_right _ listed, forbidden⟩

/-- Events that record nothing for the path do not matter. -/
theorem silent (before : LogTrue env view path log w) (events : List (Event ρ))
    (equal : next.log = events ++ w.log)
    (other : ∀ record remote, .recorded record remote ∈ events → record.path ≠ path) :
    LogTrue env view path log next :=
  before.append _ equal fun _ _ record remote inside own => absurd own (other record remote inside)

end LogTrue

/-- What one push state says about one path. -/
structure Sight where
  there : Option RemoteEntry
  stored : Option FileSyncMeta
  mirror : Option FileSyncMeta
  failed : Prop

def sight (view : ρ → Text → Option RemoteEntry) (path : Text) (s : PushState ρ) : Sight where
  there := view s.world.remote path
  stored := s.world.store.files.find path
  mirror := s.metadataByPath.find path
  failed := s.errors ≠ []

def Clear (path : Text) (queue : List PendingPushFile) (rest : List PushFilePrepRequest) : Prop :=
  (∀ file ∈ queue, file.remotePath ≠ path) ∧ ∀ request ∈ rest, request.remotePath ≠ path

def Quiet (path : Text) (pending : List FileSyncMeta) : Prop := ∀ record ∈ pending, record.path ≠ path

/-- How far a push has come with one path. The last stage only occurs between a move and its records. -/
inductive Stage (env : Env ρ) (t : Target ρ) (loose : Prop) (queue : List PendingPushFile)
    (pending : List FileSyncMeta) (rest : List PushFilePrepRequest) (x : Sight) : Prop
  | waiting (wanted : t.wanted) (request : PushFilePrepRequest) (inside : request ∈ rest)
      (own : request.remotePath = t.path) (quiet : Quiet t.path pending)
      (held : ∀ m, request.storedMeta = some m → m.contentHash = t.hash env → t.HeldBy env x.there)
      (stored : ∀ m, x.stored = some m → request.storedMeta = some m)
      (kept : t.apart → x.stored = request.storedMeta)
  | queued (wanted : t.wanted) (file : PendingPushFile) (inside : file ∈ queue)
      (own : file.remotePath = t.path) (quiet : Quiet t.path pending)
  | settled (wanted : t.wanted) (clear : Clear t.path queue rest) (held : t.HeldBy env x.there)
      (recorded : (∃ record ∈ pending, record.path = t.path) ∨
        (∀ m, x.stored = some m → t.Fresh env m) ∧ (t.apart → x.stored ≠ none))
  | failed (clear : Clear t.path queue rest) (quiet : Quiet t.path pending) (failed : x.failed)
  | untracked (clear : Clear t.path queue rest) (quiet : Quiet t.path pending)
      (unwanted : ¬ t.wanted) (there : x.there = t.there) (stored : x.stored = t.record)
      (mirror : t.apart → x.mirror = t.record)
  | lost (clear : Clear t.path queue rest) (quiet : Quiet t.path pending) (unwanted : ¬ t.wanted)
      (shared : ¬ t.apart) (gone : x.stored = none)
  | leaving (now : loose) (clear : Clear t.path queue rest) (quiet : Quiet t.path pending)
      (unwanted : ¬ t.wanted) (shared : ¬ t.apart)

/-- The invariant of a push for one path; some files and records may be in hand. -/
structure Tracked (env : Env ρ) (view : ρ → Text → Option RemoteEntry) (t : Target ρ) (loose : Prop)
    (held : List PendingPushFile) (extra : List FileSyncMeta) (rest : List PushFilePrepRequest)
    (s : PushState ρ) : Prop where
  disk : s.world.disk = t.disk
  log : LogTrue env view t.path t.log s.world
  carried : ∀ file ∈ held ++ s.pendingBatch.files, file.remotePath = t.path → t.Carries env file
  fresh : ∀ record ∈ extra ++ s.pendingMetadataUpdates, record.path = t.path → t.Fresh env record
  single : ((held ++ s.pendingBatch.files).map PendingPushFile.remotePath ++
    rest.map PushFilePrepRequest.remotePath).count t.path ≤ 1
  stage : Stage env t loose (held ++ s.pendingBatch.files) (extra ++ s.pendingMetadataUpdates) rest
    (sight view t.path s)

theorem count_pos_of_mem {α : Type} {f : α → Text} {xs : List α} {x : α} {path : Text} (inside : x ∈ xs)
    (own : f x = path) : 0 < (xs.map f).count path :=
  List.count_pos_iff.mpr (List.mem_map.mpr ⟨x, inside, own⟩)

theorem forall_ne_of_count {α : Type} {f : α → Text} {xs : List α} {path : Text}
    (none : (xs.map f).count path = 0) : ∀ x ∈ xs, f x ≠ path := by
  intro x inside own
  have positive := count_pos_of_mem inside own
  omega

section Transitions

variable {env : Env ρ} {view : ρ → Text → Option RemoteEntry} {t : Target ρ} {loose : Prop}
  {held : List PendingPushFile} {extra : List FileSyncMeta} {rest : List PushFilePrepRequest}
  {s next : PushState ρ}

/-- A stage only looks at the path itself. -/
theorem Stage.map {loose' : Prop} {queue queue' : List PendingPushFile} {pending pending' : List FileSyncMeta}
    {rest rest' : List PushFilePrepRequest} {x y : Sight} (stage : Stage env t loose queue pending rest x)
    (looser : loose → loose') (clear : Clear t.path queue rest → Clear t.path queue' rest')
    (quiet : Quiet t.path pending → Quiet t.path pending')
    (waits : ∀ request ∈ rest, request.remotePath = t.path → request ∈ rest')
    (queues : ∀ file ∈ queue, file.remotePath = t.path → file ∈ queue')
    (noted : ∀ record ∈ pending, record.path = t.path → record ∈ pending')
    (there : y.there = x.there) (stored : y.stored = x.stored)
    (mirror : Quiet t.path pending → t.apart → y.mirror = x.mirror) (failed : x.failed → y.failed) :
    Stage env t loose' queue' pending' rest' y := by
  cases stage with
  | waiting wanted request inside own quietly held same kept =>
      refine .waiting wanted request (waits request inside own) own (quiet quietly) ?_ ?_ ?_
      · rwa [there]
      · rwa [stored]
      · rwa [stored]
  | queued wanted file inside own quietly =>
      exact .queued wanted file (queues file inside own) own (quiet quietly)
  | settled wanted clearly held recorded =>
      refine .settled wanted (clear clearly) (by rwa [there]) ?_
      rw [stored]
      exact recorded.imp_left fun ⟨record, inside, own⟩ => ⟨record, noted record inside own, own⟩
  | failed clearly quietly before => exact .failed (clear clearly) (quiet quietly) (failed before)
  | untracked clearly quietly unwanted same kept copy =>
      exact .untracked (clear clearly) (quiet quietly) unwanted (there.trans same) (stored.trans kept)
        fun apart => (mirror quietly apart).trans (copy apart)
  | lost clearly quietly unwanted shared gone =>
      exact .lost (clear clearly) (quiet quietly) unwanted shared (stored.trans gone)
  | leaving now clearly quietly unwanted shared =>
      exact .leaving (looser now) (clear clearly) (quiet quietly) unwanted shared

/-- An error is never taken back. -/
theorem Stage.weaken {queue : List PendingPushFile} {pending : List FileSyncMeta} {x y : Sight}
    (stage : Stage env t loose queue pending rest x) (there : y.there = x.there)
    (stored : y.stored = x.stored) (mirror : t.apart → y.mirror = x.mirror) (failed : x.failed → y.failed) :
    Stage env t loose queue pending rest y :=
  stage.map id id id (fun _ inside _ => inside) (fun _ inside _ => inside) (fun _ inside _ => inside)
    there stored (fun _ => mirror) failed

/-- Nothing has happened to the path, whatever was counted or noted. -/
theorem Tracked.same (tracked : Tracked env view t loose held extra rest s)
    (log : LogTrue env view t.path t.log next.world) (disk : next.world.disk = s.world.disk)
    (batch : next.pendingBatch = s.pendingBatch)
    (updates : next.pendingMetadataUpdates = s.pendingMetadataUpdates)
    (there : view next.world.remote t.path = view s.world.remote t.path)
    (stored : next.world.store.files.find t.path = s.world.store.files.find t.path)
    (mirror : t.apart → next.metadataByPath.find t.path = s.metadataByPath.find t.path)
    (failed : s.errors ≠ [] → next.errors ≠ []) : Tracked env view t loose held extra rest next where
  disk := disk.trans tracked.disk
  log := log
  carried := batch ▸ tracked.carried
  fresh := updates ▸ tracked.fresh
  single := batch ▸ tracked.single
  stage := by
    rw [batch, updates]
    exact tracked.stage.weaken there stored mirror failed

theorem Tracked.still (tracked : Tracked env view t loose held extra rest s) {w : World ρ}
    (unmoved : Unmoved s.world w) : Tracked env view t loose held extra rest (s.withWorld w) :=
  tracked.same (tracked.log.congr unmoved.log) unmoved.disk rfl rfl
    (by rw [PushState.withWorld, unmoved.remote]) (by rw [PushState.withWorld, unmoved.store]) (fun _ => rfl) id

theorem Tracked.counted (tracked : Tracked env view t loose held extra rest s)
    (world : next.world = s.world) (batch : next.pendingBatch = s.pendingBatch)
    (updates : next.pendingMetadataUpdates = s.pendingMetadataUpdates)
    (mirror : t.apart → next.metadataByPath.find t.path = s.metadataByPath.find t.path)
    (failed : s.errors ≠ [] → next.errors ≠ []) : Tracked env view t loose held extra rest next :=
  tracked.same (world ▸ tracked.log) (by rw [world]) batch updates (by rw [world]) (by rw [world])
    mirror failed

/-- A request for another path is done with. -/
theorem Tracked.drop {request : PushFilePrepRequest}
    (tracked : Tracked env view t loose held extra (request :: rest) s)
    (other : request.remotePath ≠ t.path) : Tracked env view t loose held extra rest s where
  disk := tracked.disk
  log := tracked.log
  carried := tracked.carried
  fresh := tracked.fresh
  single := by
    have single := tracked.single
    simpa [List.count_append, List.count_cons, other] using single
  stage := by
    refine tracked.stage.map id (fun clear => ⟨clear.1, fun q inside => clear.2 q ?_⟩) id (fun q inside own => ?_)
      (fun _ inside _ => inside) (fun _ inside _ => inside) rfl rfl (fun _ _ => rfl) id
    · exact List.mem_cons_of_mem _ inside
    · rcases List.mem_cons.mp inside with rfl | later
      · exact absurd own other
      · exact later

/-- Between two writes no record is missing. -/
theorem Tracked.tighten (tracked : Tracked env view t loose held extra rest s) (never : ¬ loose) :
    Tracked env view t False held extra rest s where
  disk := tracked.disk
  log := tracked.log
  carried := tracked.carried
  fresh := tracked.fresh
  single := tracked.single
  stage := tracked.stage.map never id id (fun _ inside _ => inside) (fun _ inside _ => inside)
    (fun _ inside _ => inside) rfl rfl (fun _ _ => rfl) id

end Transitions

end AeordbSync

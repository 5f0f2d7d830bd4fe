import AeordbSync.Library.Interference
import AeordbSync.Seen
import AeordbSync.Pull.Sync

namespace AeordbSync
open Characters OsPath FileSystem Effect Interference

/-- A file that has been pulled, with the content that was assembled and the record that was written. -/
structure Pulled where
  path : PathBuf
  content : Bytes
  record : FileSyncMeta

/-- The state of a pull beside what an observer keeps: the earlier trees, the times that the pull has read
from its clock, and the files it has pulled. -/
structure Watched (ρ : Type) where
  state : PullState ρ
  past : List Tree
  readings : List Int
  pulled : List Pulled

/-- Only the moment at which the time of an assembled file is read has a name of its own. -/
inductive PullStep where
  | call
  | readTime (path : PathBuf) (content : Bytes)

abbrev PullScript (ρ α : Type) := Script PullStep (Watched ρ) ClientError α

variable {ρ α : Type}

def Watched.disk (w : Watched ρ) : Tree := w.state.world.disk

def Watched.seen (w : Watched ρ) : Seen := ⟨w.disk, w.past, w.readings⟩

def Watched.start (w : World ρ) : Watched ρ := ⟨PullState.start w, [], [], []⟩

/-- The state moves on, and the tree before joins the past. -/
def Watched.moved (w : Watched ρ) (state : PullState ρ) : Watched ρ :=
  { w with state := state, past := w.disk :: w.past }

namespace Interleaved

def step (name : PullStep) (x : PullProgram ρ α) : PullScript ρ α :=
  Script.call name fun w => ((x w.state).1, w.moved (x w.state).2)

def call (x : PullProgram ρ α) : PullScript ρ α := step .call x

variable (env : Env ρ)

def now : PullScript ρ Int :=
  Script.call .call fun w =>
    ((onDisk (AeordbSync.now env) w.state).1,
      { w.moved (onDisk (AeordbSync.now env) w.state).2 with
        readings := env.clock w.state.world.tick :: w.readings })

def storePulled (path : PathBuf) (content : Bytes) (record : FileSyncMeta) : PullScript ρ Unit :=
  Script.call .call fun w =>
    ((storeMeta env "failed to store metadata for " record w.state).1,
      { w.moved (storeMeta env "failed to store metadata for " record w.state).2 with
        pulled := ⟨path, content, record⟩ :: w.pulled })

def orFail (x : PullScript ρ (Except IoError α)) : PullScript ρ α := do
  match ← x with
  | .ok a => pure a
  | .error error => Script.throw (.io error)

def orCleanup (entry : Text) (path : PathBuf) (x : PullScript ρ α) : PullScript ρ α := do
  match ← x.attempt with
  | .ok a => pure a
  | .error error =>
      call (onDisk (cleanupPartial env entry path))
      Script.throw error

def readLocalChunk (path : PathBuf) (l : Location) (chunk : LocalChunk) : PullScript ρ Bytes := do
  orFail (call (onDisk (readDisk env .seek path fun _ => .ok ())))
  orFail (call (onDisk (readDisk env .read path fun disk => do
    readExact (← contentAt disk l) chunk.offset chunk.len)))

def chunkBytes (entry : Text) (path : PathBuf) (reader : Option Location) (chunks : List LocalChunk)
    (fetched : List (Text × Bytes)) (hash : Text) : PullScript ρ Bytes :=
  match findLast LocalChunk.hash hash chunks, reader, findLast Prod.fst hash fetched with
  | some _, none, _ => Script.throw localFileNotOpen
  | some chunk, some l, _ => orCleanup env entry (partialPath path) (readLocalChunk env path l chunk)
  | none, _, some pair => pure pair.2
  | none, _, none => orCleanup env entry (partialPath path) (Script.throw (chunkMissing hash))

def writePartial (entry : Text) (path : PathBuf) (l : Location) (bytes : Bytes) : PullScript ρ Unit :=
  orCleanup env entry path (do
    call (onDisk (note (.localChange entry .partialFile path)))
    orFail (call (onDisk (changeDisk env .write path fun now disk => .ok ((), disk.append now l bytes)))))

def writeChunks (entry : Text) (path : PathBuf) (reader : Option Location) (chunks : List LocalChunk)
    (fetched : List (Text × Bytes)) (written : Location) : List Text → PullScript ρ Bytes
  | [] => pure []
  | hash :: rest => do
      let bytes ← chunkBytes env entry path reader chunks fetched hash
      writePartial env entry (partialPath path) written bytes
      let others ← writeChunks entry path reader chunks fetched written rest
      pure (bytes ++ others)

def finishPartial (entry : Text) (path : PathBuf) : PullScript ρ Unit :=
  orCleanup env entry (partialPath path) (do
    orFail (call (onDisk (readDisk env .flush (partialPath path) fun _ => .ok ())))
    call (onDisk (note (.localChange entry .file path)))
    orFail (call (onDisk (changeDisk env .rename path fun _ disk =>
      (disk.rename (partialPath path) path).map fun moved => ((), moved)))))

/-- The script returns the content itself. -/
def assembleFile (fetched : List (Text × Bytes)) (plan : FilePlan) : PullScript ρ Bytes := do
  let reader ← call (onDisk (openLocal env plan.localPath plan.localChunks))
  let written ← call (onDisk (createPartial env plan.entry.path (partialPath plan.localPath)))
  let content ← writeChunks env plan.entry.path plan.localPath reader plan.localChunks fetched written
    plan.entry.chunkHashes
  finishPartial env plan.entry.path plan.localPath
  pure content

def recordPulled (plan : FilePlan) (content : Bytes) : PullScript ρ Unit := do
  let time ← now env
  let modified ← step (.readTime plan.localPath content) (onDisk (fileMtime env plan.localPath))
  let modifiedAt := match modified with
    | .ok modified => modified
    | .error _ => time
  storePulled env plan.localPath content
    (pulledFileMeta plan.entry (env.digest content) content.length modifiedAt time)
  call (Proc.modify (PullState.pulled content.length))

def assemblePlan (fetched : List (Text × Bytes)) (fetchError : Option Text) (plan : FilePlan) :
    PullScript ρ Unit := do
  match fetchError with
  | some error => call (Proc.modify (PullState.failed
      (text "skipping " ++ plan.entry.path ++ text " (" ++ error ++ text ")")))
  | none => match ← (assembleFile env fetched plan).attempt with
    | .ok content => recordPulled env plan content
    | .error error => call (Proc.modify (PullState.failed
        (text "failed to assemble " ++ plan.entry.path ++ text ": " ++ error.display)))

def assemblePlans (fetched : List (Text × Bytes)) (fetchError : Option Text) (plans : List FilePlan) :
    PullScript ρ Unit :=
  Script.forEach plans (assemblePlan env fetched fetchError)

end Interleaved

section

variable {env : Env ρ}

theorem onDisk_bind {β : Type} (x : Program ρ α) (f : α → Program ρ β) :
    onDisk (x >>= f) = onDisk x >>= fun a => onDisk (f a) := by
  funext s
  show Proc.zoom _ _ (x >>= f) s = (Proc.zoom _ _ x >>= fun a => Proc.zoom _ _ (f a)) s
  rw [Proc.bind_apply]
  simp only [Proc.zoom, Proc.bind_apply]
  rcases x s.world with ⟨result, next⟩
  cases result <;> rfl

theorem onDisk_attempt (x : Program ρ α) : onDisk (Proc.attempt x) = Proc.attempt (onDisk x) := rfl

/-- When nothing else happens, the script does what the program does. -/
abbrev Mirrors {β : Type} (read : α → β) (script : PullScript ρ α) (x : PullProgram ρ β) : Prop :=
  script.Follows Watched.state read x

namespace Mirrors

theorem step (name : PullStep) (x : PullProgram ρ α) : Mirrors id (Interleaved.step name x) x :=
  Script.Follows.call (fun _ => rfl) fun _ => rfl

theorem orFail {script : PullScript ρ (Except IoError α)} {x : Program ρ (Except IoError α)}
    (mirrors : Mirrors id script (onDisk x)) :
    Mirrors id (Interleaved.orFail script) (onDisk (AeordbSync.orFail x)) := by
  unfold AeordbSync.orFail
  rw [onDisk_bind]
  apply Script.Follows.bind mirrors
  intro result
  cases result with
  | ok a => exact Script.Follows.ret a
  | error e => exact Script.Follows.throw _

theorem orCleanup {entry : Text} {path : PathBuf} {script : PullScript ρ α} {x : Program ρ α}
    (mirrors : Mirrors id script (onDisk x)) :
    Mirrors id (Interleaved.orCleanup env entry path script) (onDisk (AeordbSync.orCleanup env entry path x)) := by
  unfold AeordbSync.orCleanup
  rw [onDisk_bind, onDisk_attempt]
  apply Script.Follows.bind (Script.Follows.attempt mirrors)
  intro result
  cases result with
  | ok a => exact Script.Follows.ret a
  | error e =>
      show Mirrors id _ (onDisk (cleanupPartial env entry path >>= fun _ => Proc.throw e))
      rw [onDisk_bind]
      exact Script.Follows.bind (step _ _) fun _ => Script.Follows.throw e

theorem readLocalChunk {path : PathBuf} {l : Location} {chunk : LocalChunk} :
    Mirrors id (Interleaved.readLocalChunk env path l chunk) (onDisk (AeordbSync.readLocalChunk env path l chunk)) := by
  unfold AeordbSync.readLocalChunk
  rw [onDisk_bind]
  exact Script.Follows.bind (orFail (step _ _)) fun _ => orFail (step _ _)

theorem chunkBytes {entry : Text} {path : PathBuf} {reader : Option Location} {chunks : List LocalChunk}
    {fetched : List (Text × Bytes)} {hash : Text} :
    Mirrors id (Interleaved.chunkBytes env entry path reader chunks fetched hash)
      (onDisk (AeordbSync.chunkBytes env entry path reader chunks fetched hash)) := by
  unfold AeordbSync.chunkBytes Interleaved.chunkBytes
  generalize findLast LocalChunk.hash hash chunks = present
  generalize findLast Prod.fst hash fetched = received
  cases present with
  | some chunk =>
      cases reader with
      | none => exact Script.Follows.throw _
      | some l => exact orCleanup readLocalChunk
  | none =>
      cases received with
      | some pair => exact Script.Follows.ret _
      | none => exact orCleanup (Script.Follows.throw _)

theorem writePartial {entry : Text} {path : PathBuf} {l : Location} {bytes : Bytes} :
    Mirrors id (Interleaved.writePartial env entry path l bytes)
      (onDisk (AeordbSync.writePartial env entry path l bytes)) := by
  apply orCleanup
  rw [onDisk_bind]
  exact Script.Follows.bind (step _ _) fun _ => orFail (step _ _)

theorem writeChunks {entry : Text} {path : PathBuf} {reader : Option Location} {chunks : List LocalChunk}
    {fetched : List (Text × Bytes)} {written : Location} (hashes : List Text) :
    Mirrors id (Interleaved.writeChunks env entry path reader chunks fetched written hashes)
      (onDisk (AeordbSync.writeChunks env entry path reader chunks fetched written hashes)) := by
  induction hashes with
  | nil => exact Script.Follows.ret []
  | cons hash rest ih =>
      unfold AeordbSync.writeChunks Interleaved.writeChunks
      rw [onDisk_bind]
      apply Script.Follows.bind chunkBytes
      intro bytes
      rw [onDisk_bind]
      apply Script.Follows.bind writePartial
      intro _
      rw [onDisk_bind]
      exact Script.Follows.bind ih fun others => Script.Follows.ret _

theorem finishPartial {entry : Text} {path : PathBuf} :
    Mirrors id (Interleaved.finishPartial env entry path) (onDisk (AeordbSync.finishPartial env entry path)) := by
  apply orCleanup
  rw [onDisk_bind]
  apply Script.Follows.bind (orFail (step _ _))
  intro _
  rw [onDisk_bind]
  exact Script.Follows.bind (step _ _) fun _ => orFail (step _ _)

theorem assembleFile {fetched : List (Text × Bytes)} {plan : FilePlan} :
    Mirrors (fun content => (content.length, env.digest content)) (Interleaved.assembleFile env fetched plan)
      (onDisk (AeordbSync.assembleFile env fetched plan)) := by
  unfold AeordbSync.assembleFile
  rw [onDisk_bind]
  apply Script.Follows.bind (step _ _)
  intro reader
  rw [onDisk_bind]
  apply Script.Follows.bind (step _ _)
  intro written
  rw [onDisk_bind]
  apply Script.Follows.bind (writeChunks _)
  intro content
  rw [onDisk_bind]
  exact Script.Follows.bind finishPartial fun _ => Script.Follows.ret content

theorem now : Mirrors id (Interleaved.now env) (onDisk (AeordbSync.now env)) :=
  Script.Follows.call (fun _ => rfl) fun _ => rfl

theorem storePulled {path : PathBuf} {content : Bytes} {record : FileSyncMeta} :
    Mirrors id (Interleaved.storePulled env path content record)
      (storeMeta env "failed to store metadata for " record) :=
  Script.Follows.call (fun _ => rfl) fun _ => rfl

theorem recordPulled {plan : FilePlan} {content : Bytes} :
    Mirrors id (Interleaved.recordPulled env plan content)
      (AeordbSync.recordPulled env plan content.length (env.digest content)) := by
  apply Script.Follows.bind now
  intro time
  apply Script.Follows.bind (step _ _)
  intro modified
  exact Script.Follows.bind storePulled fun _ => step _ _

theorem assemblePlan {fetched : List (Text × Bytes)} {fetchError : Option Text} (plan : FilePlan) :
    Mirrors id (Interleaved.assemblePlan env fetched fetchError plan)
      (AeordbSync.assemblePlan env fetched fetchError plan) := by
  cases fetchError with
  | some error => exact step _ _
  | none =>
      apply Script.Follows.bind (Script.Follows.attempt assembleFile)
      intro result
      cases result with
      | ok content => exact recordPulled
      | error error => exact step _ _

end Mirrors

/-- Without interference the script is the last phase of the pull. -/
theorem assemblePlans_mirrors (fetched : List (Text × Bytes)) (fetchError : Option Text) (plans : List FilePlan) :
    Mirrors id (Interleaved.assemblePlans env fetched fetchError plans)
      (Proc.forEach plans (assemblePlan env fetched fetchError)) :=
  Script.Follows.forEach Mirrors.assemblePlan

end

end AeordbSync

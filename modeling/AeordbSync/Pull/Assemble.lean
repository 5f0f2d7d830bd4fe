import AeordbSync.Pull.Plan

namespace AeordbSync
open Characters OsPath FileSystem Effect

variable {ρ α : Type} (env : Env ρ)

def partialPath (path : PathBuf) : PathBuf := pushText path (osText (text ".aeordb-pull.tmp"))

def openLocation (path : PathBuf) : Program ρ (Except IoError Location) :=
  readDisk env .open path fun disk => do
    match ← disk.metadata true path with
    | .special => .error .permissionDenied
    | _ => disk.resolve true path

/-- The open file stays the same whatever its path names later. -/
def openLocal (path : PathBuf) (chunks : List LocalChunk) : Program ρ (Option Location) := do
  if chunks.isEmpty then pure none
  else match ← openLocation env path with
    | .error error => if error.kind = .notFound then pure none else Proc.throw (.io error)
    | .ok l => pure (some l)

def createPartial (entry : Text) (path : PathBuf) : Program ρ Location := do
  note (.localChange entry .partialFile path)
  orFail (changeDisk env .create path fun now disk => disk.create now path)

/-- What stays of a file whose assembly fails is removed without asking for the outcome. -/
def cleanupPartial (entry : Text) (path : PathBuf) : Program ρ Unit := do
  note (.localChange entry .removal path)
  let _ ← changeDisk env .removeFile path fun _ disk => (disk.removeFile path).map fun left => ((), left)
  pure ()

/-- The program runs and, if it fails, the partial file is removed. -/
def orCleanup (entry : Text) (path : PathBuf) (x : Program ρ α) : Program ρ α := do
  match ← Proc.attempt x with
  | .ok a => pure a
  | .error error =>
      cleanupPartial env entry path
      Proc.throw error

def contentAt (disk : Tree) (l : Location) : Except IoError Bytes := match disk.node l with
  | some (.file content _) => .ok content
  | some .directory => .error .isADirectory
  | _ => .error .permissionDenied

def readLocalChunk (path : PathBuf) (l : Location) (chunk : LocalChunk) : Program ρ Bytes := do
  orFail (readDisk env .seek path fun _ => .ok ())
  orFail (readDisk env .read path fun disk => do readExact (← contentAt disk l) chunk.offset chunk.len)

def localFileNotOpen : ClientError :=
  .server (text "internal: local_chunks non-empty but local file not open")

def chunkMissing (hash : Text) : ClientError :=
  .server (text "chunk " ++ hash ++ text " missing from both local and fetched sets")

/-- Only the lack of an open file leaves the partial file behind. -/
def chunkBytes (entry : Text) (path : PathBuf) (reader : Option Location) (chunks : List LocalChunk)
    (fetched : List (Text × Bytes)) (hash : Text) : Program ρ Bytes :=
  match findLast LocalChunk.hash hash chunks, reader, findLast Prod.fst hash fetched with
  | some _, none, _ => Proc.throw localFileNotOpen
  | some chunk, some l, _ => orCleanup env entry (partialPath path) (readLocalChunk env path l chunk)
  | none, _, some pair => pure pair.2
  | none, _, none => orCleanup env entry (partialPath path) (Proc.throw (chunkMissing hash))

def writePartial (entry : Text) (path : PathBuf) (l : Location) (bytes : Bytes) : Program ρ Unit :=
  orCleanup env entry path (do
    note (.localChange entry .partialFile path)
    orFail (changeDisk env .write path fun now disk => .ok ((), disk.append now l bytes)))

/-- The chunks are written in the order of the manifest. -/
def writeChunks (entry : Text) (path : PathBuf) (reader : Option Location) (chunks : List LocalChunk)
    (fetched : List (Text × Bytes)) (written : Location) : List Text → Program ρ Bytes
  | [] => pure []
  | hash :: rest => do
      let bytes ← chunkBytes env entry path reader chunks fetched hash
      writePartial env entry (partialPath path) written bytes
      let others ← writeChunks entry path reader chunks fetched written rest
      pure (bytes ++ others)

def finishPartial (entry : Text) (path : PathBuf) : Program ρ Unit :=
  orCleanup env entry (partialPath path) (do
    orFail (readDisk env .flush (partialPath path) fun _ => .ok ())
    note (.localChange entry .file path)
    orFail (changeDisk env .rename path fun _ disk =>
      (disk.rename (partialPath path) path).map fun moved => ((), moved)))

/-- A file is written beside its place and then takes it. -/
def assembleFile (fetched : List (Text × Bytes)) (plan : FilePlan) : Program ρ (Nat × Text) := do
  let reader ← openLocal env plan.localPath plan.localChunks
  let written ← createPartial env plan.entry.path (partialPath plan.localPath)
  let content ← writeChunks env plan.entry.path plan.localPath reader plan.localChunks fetched written
    plan.entry.chunkHashes
  finishPartial env plan.entry.path plan.localPath
  pure (content.length, env.digest content)

def pulledFileMeta (entry : RemoteSyncFileEntry) (contentHash : Text) (size : Nat) (modified time : Int) :
    FileSyncMeta :=
  ⟨entry.path, contentHash, size, modified, .synced, time⟩

/-- A record that cannot be stored is an error, but the file counts as pulled. -/
def storeMeta (what : String) (record : FileSyncMeta) : PullProgram ρ Unit := do
  match ← Proc.attempt (onDisk (setFileMeta env record)) with
  | .ok () => pure ()
  | .error error => Proc.modify (PullState.warned (text what ++ record.path ++ text ": " ++ error.display))

def recordPulled (plan : FilePlan) (size : Nat) (contentHash : Text) : PullProgram ρ Unit := do
  let time ← onDisk (now env)
  let modified ← onDisk (fileMtime env plan.localPath)
  let modifiedAt := match modified with
    | .ok modified => modified
    | .error _ => time
  storeMeta env "failed to store metadata for " (pulledFileMeta plan.entry contentHash size modifiedAt time)
  Proc.modify (PullState.pulled size)

def assemblePlan (fetched : List (Text × Bytes)) (fetchError : Option Text) (plan : FilePlan) :
    PullProgram ρ Unit := do
  match fetchError with
  | some error =>
      Proc.modify (PullState.failed (text "skipping " ++ plan.entry.path ++ text " (" ++ error ++ text ")"))
  | none => match ← Proc.attempt (onDisk (assembleFile env fetched plan)) with
    | .ok (size, contentHash) => recordPulled env plan size contentHash
    | .error error => Proc.modify (PullState.failed
        (text "failed to assemble " ++ plan.entry.path ++ text ": " ++ error.display))

end AeordbSync

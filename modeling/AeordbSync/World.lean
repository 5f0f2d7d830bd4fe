import AeordbSync.Library.FileCalls
import AeordbSync.Remote

namespace AeordbSync
open Characters OsPath FileSystem Effect

inductive DiskCall where
  | exists
  | readDir
  | dirEntry
  | fileType
  | symlinkMetadata
  | readLink
  | modified
  | open
  | read
  | seek
  | create
  | write
  | flush
  | rename
  | removeFile
  | symlink
  | createDir
  deriving DecidableEq

/-- What surrounds the program: the engine, the failures of the disk and of the state database,
the clock, and every order that the program leaves open. -/
structure Env (ρ : Type) where
  engine : Engine ρ
  digest : Bytes → Text
  globMatch : Text → Text → Bool
  debugPath : PathBuf → Text
  parallelism : Nat
  diskFault : DiskCall → PathBuf → Nat → Option IoError
  storeFault : Nat → Option ClientError
  clock : Nat → Int
  order : {α : Type} → Nat → List α → List α
  order_perm : ∀ {α : Type} (tick : Nat) (xs : List α), (order tick xs).Perm xs
  /-- The reads of one file may stop early, but only the end of the file stops them for good. -/
  pieces : Nat → Nat → Bytes → List Bytes
  pieces_flatten : ∀ tick limit content, 0 < limit → (pieces tick limit content).flatten = content
  pieces_length : ∀ tick limit content, ∀ piece ∈ pieces tick limit content,
    piece ≠ [] ∧ piece.length ≤ limit

/-- What is done to a local path. A partial file is one that is still being written. -/
inductive LocalChange where
  | directory
  | partialFile
  | file
  | symlink
  | removal
  deriving DecidableEq

/-- One effect of a run. A record is written together with what the remote holds then. -/
inductive Event (ρ : Type) where
  | committed (paths : List Text)
  | uploaded (path : Text)
  | linked (path : Text)
  | renamed (source target : Text)
  | deleted (path : Text)
  | uploadFailed (path : Text) (error : ClientError)
  | recorded (record : FileSyncMeta) (remote : ρ)
  | forgotten (path : Text)
  | localChange (entry : Text) (change : LocalChange) (path : PathBuf)

/-- The log only grows and no part of the program reads it. -/
structure World (ρ : Type) where
  disk : Tree
  store : MetadataStore
  remote : ρ
  tick : Nat
  log : List (Event ρ)

abbrev Program (ρ α : Type) := Proc (World ρ) ClientError α

namespace World

variable {ρ : Type}

def advance (w : World ρ) : World ρ := { w with tick := w.tick + 1 }

@[simp] theorem advance_disk (w : World ρ) : w.advance.disk = w.disk := rfl
@[simp] theorem advance_store (w : World ρ) : w.advance.store = w.store := rfl
@[simp] theorem advance_remote (w : World ρ) : w.advance.remote = w.remote := rfl
@[simp] theorem advance_log (w : World ρ) : w.advance.log = w.log := rfl

end World

variable {ρ α : Type}

def Env.faulty (env : Env ρ) (call : DiskCall) (path : PathBuf) (tick : Nat)
    (result : Except IoError α) : Except IoError α :=
  match env.diskFault call path tick with
  | some error => .error error
  | none => result

def readDisk (env : Env ρ) (call : DiskCall) (path : PathBuf) (f : Tree → Except IoError α) :
    Program ρ (Except IoError α) := fun w =>
  (.ok (env.faulty call path w.tick (f w.disk)), w.advance)

/-- A call that fails changes nothing. -/
def changeDisk (env : Env ρ) (call : DiskCall) (path : PathBuf)
    (f : Int → Tree → Except IoError (α × Tree)) : Program ρ (Except IoError α) := fun w =>
  match env.faulty call path w.tick (f (env.clock w.tick) w.disk) with
  | .error error => (.ok (.error error), w.advance)
  | .ok (a, disk) => (.ok (.ok a), { w.advance with disk := disk })

def orFail (x : Program ρ (Except IoError α)) : Program ρ α := do
  match ← x with
  | .ok a => pure a
  | .error error => Proc.throw (.io error)

def note (event : Event ρ) : Program ρ Unit :=
  Proc.modify fun w => { w with log := event :: w.log }

def callRemote (x : Proc ρ ClientError α) : Program ρ α :=
  Proc.zoom World.remote (fun remote w => { w with remote := remote }) x

def now (env : Env ρ) : Program ρ Int := fun w => (.ok (env.clock w.tick), w.advance)

/-- The program receives the elements in an order it does not choose. -/
def arrange (env : Env ρ) (xs : List α) : Program ρ (List α) := fun w =>
  (.ok (env.order w.tick xs), w.advance)

def readStore (env : Env ρ) (f : MetadataStore → α) : Program ρ α := fun w =>
  match env.storeFault w.tick with
  | some error => (.error error, w.advance)
  | none => (.ok (f w.store), w.advance)

/-- A write of the state database is all or nothing. -/
def writeStore (env : Env ρ) (f : MetadataStore → MetadataStore) (events : ρ → List (Event ρ)) :
    Program ρ Unit := fun w =>
  match env.storeFault w.tick with
  | some error => (.error error, w.advance)
  | none => (.ok (), { w.advance with store := f w.store, log := events w.remote ++ w.log })

def setFileMetasBatch (env : Env ρ) (metas : List FileSyncMeta) : Program ρ Unit :=
  if metas = [] then pure ()
  else writeStore env (fun store => { store with files := store.files.setAll metas })
    fun remote => metas.map fun record => .recorded record remote

def setFileMeta (env : Env ρ) (record : FileSyncMeta) : Program ρ Unit :=
  setFileMetasBatch env [record]

def deleteFileMeta (env : Env ρ) (path : Text) : Program ρ Unit :=
  writeStore env (fun store => { store with files := store.files.remove path })
    fun _ => [.forgotten path]

def listFileMetas (env : Env ρ) : Program ρ Records := readStore env MetadataStore.files

def getCheckpoint (env : Env ρ) : Program ρ (Option SyncCheckpoint) :=
  readStore env MetadataStore.checkpoint

def setCheckpoint (env : Env ρ) (checkpoint : SyncCheckpoint) : Program ρ Unit :=
  writeStore env (fun store => { store with checkpoint := some checkpoint }) fun _ => []

def getPathMigration (env : Env ρ) : Program ρ (Option SyncPathMigration) :=
  readStore env MetadataStore.migration

def clearPathMigration (env : Env ρ) : Program ρ Unit :=
  writeStore env (fun store => { store with migration := none }) fun _ => []

end AeordbSync

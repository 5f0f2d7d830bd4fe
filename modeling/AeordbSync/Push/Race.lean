import AeordbSync.Push.Sync
import AeordbSync.Seen

namespace AeordbSync
open Characters OsPath FileSystem Effect

/-- How far the file of an entry has come in a push. The bytes are those that were hashed, and an upload has
landed when the engine has acknowledged it. -/
inductive FileStage where
  | statted (content : Bytes)
  | requested (request : PushFilePrepRequest)
  | hashed (bytes : Bytes) (request : PushFilePrepRequest) (file : PendingPushFile)
  | waiting (bytes : Bytes) (file : PendingPushFile) (chunks : Option (List Text)) (landed : Bool)
  | accepted (bytes : Bytes) (file : PendingPushFile)
  | pointed (modified : Int)
  | queued (link : PendingSymlink)
  | linked (link : PendingSymlink) (pushed : Bool)

namespace FileStage

def landed : FileStage → Bool
  | .waiting _ _ _ landed => landed
  | .accepted .. => true
  | .linked .. => true
  | _ => false

def accept (stage : FileStage) (pushed : Bool) : FileStage := match stage with
  | .waiting bytes file _ _ => .accepted bytes file
  | .queued link => .linked link pushed
  | stage => stage

/-- It is taken for granted that the remote holds something at the path. -/
def relies : FileStage → Bool
  | .requested request => request.storedMeta.isSome
  | .hashed _ request _ => request.storedMeta.isSome
  | .accepted .. => true
  | .linked .. => true
  | _ => false

/-- What a commit says about a file whose chunks are planned. -/
def commit? : FileStage → Option CommitFile
  | .waiting _ file (some chunks) _ => some (commitFileOf file chunks)
  | _ => none

end FileStage

/-- Files and symlinks are pushed first, and then deletions are passed on. -/
inductive PushPhase where
  | idle
  | files
  | deletes
  deriving DecidableEq

/-- A client that pushes again and again while others write to the disk. The trees of the past and the paths where
this push has changed the remote are only kept for what is said about them. -/
structure PushRace (ρ : Type) where
  push : PushState ρ
  past : List Tree
  phase : PushPhase
  mode : PushScanMode
  config : BlobConfig
  migration : Option SyncPathMigration
  stages : PathBuf → Option FileStage
  visited : List PathBuf
  acknowledged : List Text

inductive RaceAction where
  | write (disk : Tree)
  | begin (mode : PushScanMode)
  | stat (entry : PathBuf)
  | date (entry : PathBuf)
  | hash (entry : PathBuf)
  | decide (entry : PathBuf)
  | move (entry : PathBuf) (legacy : Bool)
  | adopt (entry : PathBuf)
  | plan (entry : PathBuf)
  | sendChunk (chunk : PendingChunkRef)
  | commit (entries : List PathBuf)
  | put (entry : PathBuf)
  | retry (entry : PathBuf)
  | fail (entry : PathBuf) (error : ClientError)
  | record (entry : PathBuf)
  | readLink (entry : PathBuf)
  | sendLink (entry : PathBuf)
  | recordLink (entry : PathBuf)
  | flush
  | turn
  | remove (path : Text)
  | forget (path : Text)
  | finish
  | stop

def SyncRelationship.remotePathOf (relationship : SyncRelationship) (entry : PathBuf) : Text :=
  match stripPrefix entry relationship.localBase with
  | some relative => computeRemotePath relative relationship.remotePath
  | none => []

def SyncRelationship.legacyPathOf (relationship : SyncRelationship) (entry : PathBuf) : Option Text :=
  (stripPrefix entry relationship.localBase).bind fun relative =>
    computeLegacySeparatorRemotePath relative relationship.remotePath

variable {ρ α : Type}

/-- The records of symlinks wait as those of files do. -/
def PushState.queueLink (record : FileSyncMeta) (pushed : Bool) (s : PushState ρ) : PushState ρ :=
  let s := if pushed then s.linked record else s.alreadyThere record
  { s with pendingMetadataUpdates := s.pendingMetadataUpdates ++ [record] }

namespace PushRace

def disk (s : PushRace ρ) : Tree := s.push.world.disk

def seen (s : PushRace ρ) : Seen := ⟨s.disk, s.past, []⟩

def withPush (push : PushState ρ) (s : PushRace ρ) : PushRace ρ := { s with push := push }

def setStage (entry : PathBuf) (stage : Option FileStage) (s : PushRace ρ) : PushRace ρ :=
  { s with stages := Function.update s.stages entry stage }

/-- The variables of the run are gone. -/
def stopped (s : PushRace ρ) : PushRace ρ :=
  { s with push := s.push.tookUpdates, phase := .idle, stages := fun _ => none, visited := [], acknowledged := [] }

/-- A failure ends the push. -/
def resume (s : PushRace ρ) (outcome : Except ClientError α × PushState ρ)
    (next : α → PushRace ρ → PushRace ρ) : PushRace ρ :=
  match outcome with
  | (.ok a, push) => next a (s.withPush push)
  | (.error _, push) => (s.withPush push).stopped

def written (disk : Tree) (s : PushRace ρ) : PushRace ρ :=
  { s with push := s.push.withWorld { s.push.world with disk := disk }, past := s.seen.trees }

def landed (paths : List Text) (s : PushRace ρ) : PushRace ρ := { s with acknowledged := paths ++ s.acknowledged }

variable (env : Env ρ) (relationship : SyncRelationship)

def begin (s : PushRace ρ) (mode : PushScanMode) : Option (PushRace ρ) :=
  if s.phase = .idle then match env.engine.blobConfig s.push.world.remote with
    | (.ok config, remote) =>
        let world := { s.push.world with remote := remote }
        some { s with
          push := PushState.start world.store.files world
          phase := .files
          mode := mode
          config := config
          migration := world.store.migration }
    | (.error _, remote) => some (s.withPush (s.push.withWorld { s.push.world with remote := remote }))
  else none

def stat (s : PushRace ρ) (entry : PathBuf) : Option (PushRace ρ) :=
  if s.phase = .files ∧ entry ∉ s.visited then
    let s := { s with visited := entry :: s.visited }
    match onWorld (readDisk env .symlinkMetadata entry fun disk => disk.metadata false entry) s.push with
    | (.ok (.ok (.file content _)), push) => some ((s.withPush push).setStage entry (some (.statted content)))
    | (.ok (.ok (.symlink _ modified)), push) =>
        some ((s.withPush push).setStage entry (some (.pointed modified)))
    | (_, push) => some (s.withPush push)
  else none

def date (s : PushRace ρ) (entry : PathBuf) : Option (PushRace ρ) :=
  match s.stages entry with
  | some (.statted content) => match onWorld (fileMtime env entry) s.push with
    | (.ok (.ok mtime), push) =>
        let storedMeta := s.push.metadataByPath.find (relationship.remotePathOf entry)
        if canLiteFastSkip s.mode storedMeta content.length mtime then
          some ((s.withPush push.skipped).setStage entry none)
        else some ((s.withPush push).setStage entry (some (.requested ⟨entry,
          relationship.remotePathOf entry, mtime, mimeFromExtension entry, storedMeta,
          s.migration.bind (migrationOldRemotePathForEntry entry), relationship.legacyPathOf entry⟩)))
    | (_, push) => some ((s.withPush push).setStage entry none)
  | _ => none

/-- The bytes that are hashed are kept beside their hash. -/
def hash (s : PushRace ρ) (entry : PathBuf) : Option (PushRace ρ) :=
  match s.stages entry with
  | some (.requested request) => match onWorld (readFile env request.entryPath) s.push with
    | (.ok (.ok content), push) => some ((s.withPush push).setStage entry (some (.hashed content request
        (candidateOf request (env.digest content) content.length))))
    | (_, push) => some ((s.withPush push).setStage entry none)
  | _ => none

def decide (s : PushRace ρ) (entry : PathBuf) : Option (PushRace ρ) :=
  match s.stages entry with
  | some (.hashed bytes request file) =>
      let waits := s.setStage entry (some (.waiting bytes file none false))
      match request.storedMeta with
      | none => some waits
      | some record =>
          if record.contentHash = file.contentHash then
            if needsHashSkipMetadataUpdate record file.fileSize file.modifiedAt then
              some (s.resume (onWorld (makeFileMeta env file) s.push) fun updated s =>
                (s.withPush (s.push.queueMeta updated).skipped).setStage entry none)
            else some ((s.withPush s.push.skipped).setStage entry none)
          else some waits
  | _ => none

/-- A file without a record may be found under its old path, of one kind or the other. -/
def move (s : PushRace ρ) (entry : PathBuf) (legacy : Bool) : Option (PushRace ρ) :=
  match s.stages entry with
  | some (.hashed _ request file) =>
      if request.storedMeta = none then
        let outcome := if legacy then
            tryMove env relationship.remotePath request.legacySeparatorRemotePath file
              (fun _ _ => pure false) s.push
          else tryMove env (migrationRoot ⟨relationship, [], s.mode, s.config, s.migration⟩)
            request.migrationOldRemotePath file (fun oldPath error => do
              Proc.modify (PushState.failed (failedToMigrate oldPath file.remotePath error))
              pure true) s.push
        some (s.resume outcome fun done s => if done then s.setStage entry none else s)
      else none
  | _ => none

def adopt (s : PushRace ρ) (entry : PathBuf) : Option (PushRace ρ) :=
  match s.stages entry with
  | some (.hashed _ request file) =>
      if request.storedMeta = none then
        some (s.resume (tryTarget env s.migration request.migrationOldRemotePath file s.push)
          fun done s => if done then s.setStage entry none else s)
      else none
  | _ => none

def plan (s : PushRace ρ) (entry : PathBuf) : Option (PushRace ρ) :=
  match s.stages entry with
  | some (.waiting bytes file _ landed) => match onWorld (planFileChunks env file s.config) s.push with
    | (.ok (.ok planned), push) =>
        some ((s.withPush push).setStage entry (some (.waiting bytes file (some planned.chunkHashes) landed)))
    | (_, push) => some ((s.withPush push).setStage entry (some (.waiting bytes file none landed)))
  | _ => none

def sendChunk (s : PushRace ρ) (chunk : PendingChunkRef) : Option (PushRace ρ) :=
  if s.phase = .files then
    some (s.withPush (onWorld (uploadPendingChunk env s.config.chunkHashPrefix chunk) s.push).2)
  else none

/-- The engine commits all files of a plan at once. -/
def commit (s : PushRace ρ) (entries : List PathBuf) : Option (PushRace ρ) :=
  match entries.mapM fun entry => (s.stages entry).bind FileStage.commit? with
  | none => none
  | some files => match onWorld (callRemote (env.engine.blobCommit files)) s.push with
    | (.ok (), push) => some (PushRace.landed (entries.map relationship.remotePathOf)
        { s.withPush push with
          stages := fun entry => if entry ∈ entries then (s.stages entry).map (FileStage.accept · true)
            else s.stages entry })
    | (.error _, push) => some (s.withPush push)

def put (s : PushRace ρ) (entry : PathBuf) : Option (PushRace ρ) :=
  match s.stages entry with
  | some (.waiting bytes file _ _) => match onWorld (pushFileDirectly env file) s.push with
    | (.ok (), push) => some (PushRace.landed [relationship.remotePathOf entry]
        ((s.withPush push).setStage entry (some (.accepted bytes file))))
    | (.error _, push) => some (s.withPush push)
  | _ => none

/-- The batch of the file has failed, and the file is tried again on its own. -/
def retry (s : PushRace ρ) (entry : PathBuf) : Option (PushRace ρ) :=
  match s.stages entry with
  | some (.accepted bytes file) => some (s.setStage entry (some (.waiting bytes file none true)))
  | _ => none

def fail (s : PushRace ρ) (entry : PathBuf) (error : ClientError) : Option (PushRace ρ) :=
  match s.stages entry with
  | some (.waiting _ file _ _) =>
      some (s.resume (recordPushFailure env file error s.push) fun _ s => s.setStage entry none)
  | _ => none

def record (s : PushRace ρ) (entry : PathBuf) : Option (PushRace ρ) :=
  match s.stages entry with
  | some (.accepted _ file) =>
      some (s.resume (onWorld (makeFileMeta env file) s.push) fun record s =>
        (s.withPush (s.push.uploaded [file] [record])).setStage entry none)
  | _ => none

def readLink (s : PushRace ρ) (entry : PathBuf) : Option (PushRace ρ) :=
  match s.stages entry with
  | some (.pointed modified) =>
      let remotePath := relationship.remotePathOf entry
      match onWorld (readDisk env .readLink entry fun disk => disk.readLink entry) s.push with
      | (.ok (.ok found), push) =>
          let target := toStringLossy found
          let contentHash := symlinkIdentityHash env.digest remotePath target
          if canLiteFastSkipSymlink s.mode (s.push.metadataByPath.find remotePath) contentHash then
            some ((s.withPush push.skipped).setStage entry none)
          else some ((s.withPush push).resume (onWorld (metadataMtimeOrNow env modified) push)
            fun modifiedAt s => s.setStage entry (some (.queued ⟨remotePath, target, contentHash, modifiedAt⟩)))
      | (_, push) => some ((s.withPush push).setStage entry none)
  | _ => none

def sendLink (s : PushRace ρ) (entry : PathBuf) : Option (PushRace ρ) :=
  match s.stages entry with
  | some (.queued link) => match onWorld (pushOneSymlink env s.mode link) s.push with
    | (.ok pushed, push) => some (PushRace.landed [relationship.remotePathOf entry]
        ((s.withPush push).setStage entry (some (.linked link pushed))))
    | (.error _, push) => some ((s.withPush push).setStage entry none)
  | _ => none

def recordLink (s : PushRace ρ) (entry : PathBuf) : Option (PushRace ρ) :=
  match s.stages entry with
  | some (.linked link pushed) =>
      some (s.resume (onWorld (now env) s.push) fun time s =>
        (s.withPush (s.push.queueLink (syncedSymlinkMeta link time) pushed)).setStage entry none)
  | _ => none

def flush (s : PushRace ρ) : Option (PushRace ρ) :=
  if s.phase = .files then
    some (s.resume (flushPendingMetadataUpdates env s.push) fun _ s => s)
  else none

/-- The deletions come after every file has been dealt with. -/
def turn (s : PushRace ρ) : Option (PushRace ρ) :=
  if s.phase = .files ∧ s.push.pendingMetadataUpdates = [] ∧
      (s.visited.all fun entry => (s.stages entry).isNone) = true then
    some { s with phase := .deletes }
  else none

/-- Any record may be taken for that of a deleted file. -/
def remove (s : PushRace ρ) (path : Text) : Option (PushRace ρ) :=
  if s.phase = .deletes then some (s.resume (deleteRemote env path s.push) fun _ s => s)
  else none

def forget (s : PushRace ρ) (path : Text) : Option (PushRace ρ) :=
  if s.phase = .deletes then some (s.resume (dropStaleRecord env path s.push) fun _ s => s)
  else none

def finish (s : PushRace ρ) : Option (PushRace ρ) :=
  if s.phase = .deletes then some (s.resume (onWorld (clearPathMigration env) s.push) fun _ s => s)
  else none

/-- One step. Between any two of them the push can end. -/
def step (s : PushRace ρ) : RaceAction → Option (PushRace ρ)
  | .write disk => some (s.written disk)
  | .begin mode => s.begin env mode
  | .stat entry => s.stat env entry
  | .date entry => s.date env relationship entry
  | .hash entry => s.hash env entry
  | .decide entry => s.decide env entry
  | .move entry legacy => s.move env relationship entry legacy
  | .adopt entry => s.adopt env entry
  | .plan entry => s.plan env entry
  | .sendChunk chunk => s.sendChunk env chunk
  | .commit entries => s.commit env relationship entries
  | .put entry => s.put env relationship entry
  | .retry entry => s.retry entry
  | .fail entry error => s.fail env entry error
  | .record entry => s.record env entry
  | .readLink entry => s.readLink env relationship entry
  | .sendLink entry => s.sendLink env relationship entry
  | .recordLink entry => s.recordLink env entry
  | .flush => s.flush env
  | .turn => s.turn
  | .remove path => s.remove env path
  | .forget path => s.forget env path
  | .finish => s.finish env
  | .stop => some s.stopped

end PushRace

end AeordbSync

import AeordbSync.Library.Effect
import AeordbSync.Metadata

namespace AeordbSync
open Characters OsPath Effect

structure BlobConfig where
  hashAlgorithm : Text
  chunkSize : Nat
  chunkHashPrefix : Text

structure BlobCheckResponse where
  available : List Text
  needed : List Text

structure CommitFile where
  path : Text
  chunks : List Text
  contentHash : Option Text
  size : Option Nat
  contentType : Option Text

structure RemoteSyncFileEntry where
  path : Text
  hash : Text
  size : Nat
  contentType : Option Text
  chunkHashes : List Text

structure RemoteSyncSymlinkEntry where
  path : Text
  hash : Text
  target : Text

structure RemoteSyncDeletedEntry where
  path : Text

structure RemoteSyncChanges where
  filesAdded : List RemoteSyncFileEntry
  filesModified : List RemoteSyncFileEntry
  filesDeleted : List RemoteSyncDeletedEntry
  symlinksAdded : List RemoteSyncSymlinkEntry
  symlinksModified : List RemoteSyncSymlinkEntry
  symlinksDeleted : List RemoteSyncDeletedEntry

structure RemoteSyncDiffResponse where
  rootHash : Text
  changes : RemoteSyncChanges

/-- The remote side answers each call and may change its state with it. -/
structure Engine (ρ : Type) where
  blobConfig : Proc ρ ClientError BlobConfig
  blobCheckOnce : List Text → Proc ρ ClientError BlobCheckResponse
  uploadChunk : Text → Bytes → Proc ρ ClientError Unit
  blobCommit : List CommitFile → Proc ρ ClientError Unit
  uploadFile : Text → Bytes → Option Text → Proc ρ ClientError Unit
  deleteFile : Text → Proc ρ ClientError Unit
  createSymlink : Text → Text → Proc ρ ClientError Unit
  remoteSymlinkTarget : Text → Proc ρ ClientError (Option Text)
  renameFile : Text → Text → Proc ρ ClientError Unit
  remotePathHasContentHash : Text → Text → Text → Proc ρ ClientError Bool
  syncDiff : Option Text → Proc ρ ClientError RemoteSyncDiffResponse
  syncChunks : List Text → Proc ρ ClientError (List (Text × Bytes))

def chunkHash (digest : Bytes → Text) (hashPrefix : Text) (bytes : Bytes) : Text :=
  digest (utf8 hashPrefix ++ bytes)

def symlinkIdentityText (remotePath target : Text) : Bytes :=
  utf8 (text "symlinkid:") ++ utf8 remotePath ++ 0 :: utf8 (normalizeRemotePathLikeEngine target)

def symlinkIdentityHash (digest : Bytes → Text) (remotePath target : Text) : Text :=
  digest (symlinkIdentityText remotePath target)

inductive RemoteEntry where
  | file (content : Bytes)
  | symlink (target : Text)
  deriving DecidableEq

/-- The hash under which a record describes an entry. -/
def RemoteEntry.identity (digest : Bytes → Text) (path : Text) : RemoteEntry → Text
  | .file content => digest content
  | .symlink target => symlinkIdentityHash digest path target

/-- The remote holds an entry with this hash at the path. -/
def Holds (digest : Bytes → Text) (view : Text → Option RemoteEntry) (path hash : Text) : Prop :=
  ∃ entry, view path = some entry ∧ entry.identity digest path = hash

theorem holds_iff {digest : Bytes → Text} {view : Text → Option RemoteEntry} {path hash : Text} :
    Holds digest view path hash ↔ (view path).map (RemoteEntry.identity digest path) = some hash := by
  simp [Holds, Option.map_eq_some_iff]

theorem Holds.congr {digest : Bytes → Text} {view next : Text → Option RemoteEntry} {path hash : Text}
    (holds : Holds digest view path hash) (same : next path = view path) :
    Holds digest next path hash := by
  obtain ⟨entry, present, equal⟩ := holds
  exact ⟨entry, same.trans present, equal⟩

theorem Holds.unique {digest : Bytes → Text} {view : Text → Option RemoteEntry} {path first second : Text}
    (left : Holds digest view path first) (right : Holds digest view path second) : first = second := by
  obtain ⟨entry, present, rfl⟩ := left
  obtain ⟨other, found, rfl⟩ := right
  rw [present, Option.some.injEq] at found
  rw [found]

/-- Each call leaves every entry alone that it does not name. -/
structure EngineFrame {ρ : Type} (engine : Engine ρ) (view : ρ → Text → Option RemoteEntry) :
    Prop where
  blobConfig_view : ∀ s, view (engine.blobConfig s).2 = view s
  blobCheckOnce_view : ∀ hashes s, view (engine.blobCheckOnce hashes s).2 = view s
  uploadChunk_view : ∀ hash bytes s, view (engine.uploadChunk hash bytes s).2 = view s
  blobCommit_other : ∀ files s path, (∀ file ∈ files, file.path ≠ path) →
    view (engine.blobCommit files s).2 path = view s path
  uploadFile_other : ∀ path bytes contentType s other, other ≠ path →
    view (engine.uploadFile path bytes contentType s).2 other = view s other
  deleteFile_other : ∀ path s other, other ≠ path →
    view (engine.deleteFile path s).2 other = view s other
  createSymlink_other : ∀ path target s other, other ≠ path →
    view (engine.createSymlink path target s).2 other = view s other
  remoteSymlinkTarget_view : ∀ path s, view (engine.remoteSymlinkTarget path s).2 = view s
  renameFile_other : ∀ source target s other, other ≠ source → other ≠ target →
    view (engine.renameFile source target s).2 other = view s other
  remotePathHasContentHash_view : ∀ root path hash s,
    view (engine.remotePathHasContentHash root path hash s).2 = view s
  syncDiff_view : ∀ since s, view (engine.syncDiff since s).2 = view s
  syncChunks_view : ∀ hashes s, view (engine.syncChunks hashes s).2 = view s

/-- A successful call has done what it was asked to do. -/
structure EngineSpec {ρ : Type} (digest : Bytes → Text) (hashPrefix : Text) (engine : Engine ρ)
    (view : ρ → Text → Option RemoteEntry) : Prop extends EngineFrame engine view where
  blobConfig_ok : ∀ s config, (engine.blobConfig s).1 = .ok config →
    config.chunkHashPrefix = hashPrefix
  /-- A commit materialises each file from chunks whose hashes it has verified. -/
  blobCommit_ok : ∀ files s file, (engine.blobCommit files s).1 = .ok () → file ∈ files →
    (∀ other ∈ files, other.path = file.path → other = file) →
    ∃ pieces : List Bytes, pieces.map (chunkHash digest hashPrefix) = file.chunks ∧
      view (engine.blobCommit files s).2 file.path = some (.file pieces.flatten)
  uploadFile_ok : ∀ path bytes contentType s, (engine.uploadFile path bytes contentType s).1 = .ok () →
    view (engine.uploadFile path bytes contentType s).2 path = some (.file bytes)
  deleteFile_ok : ∀ path s, (engine.deleteFile path s).1 = .ok () →
    view (engine.deleteFile path s).2 path = none
  /-- The engine may store the target in its normalised form. -/
  createSymlink_ok : ∀ path target s, (engine.createSymlink path target s).1 = .ok () →
    ∃ stored, view (engine.createSymlink path target s).2 path = some (.symlink stored) ∧
      normalizeRemotePathLikeEngine stored = normalizeRemotePathLikeEngine target
  remoteSymlinkTarget_ok : ∀ path s target, (engine.remoteSymlinkTarget path s).1 = .ok (some target) →
    view s path = some (.symlink target)
  renameFile_ok : ∀ source target s, source ≠ target →
    (engine.renameFile source target s).1 = .ok () →
    view (engine.renameFile source target s).2 source = none ∧
      view (engine.renameFile source target s).2 target = view s source
  remotePathHasContentHash_ok : ∀ root path hash s,
    (engine.remotePathHasContentHash root path hash s).1 = .ok true →
    ∃ content, view s path = some (.file content) ∧ digest content = hash

/-- Every engine leaves alone what is never looked at. -/
theorem EngineFrame.blind {ρ : Type} (engine : Engine ρ) : EngineFrame engine fun _ _ => none := by
  constructor <;> intros <;> rfl

end AeordbSync

import AeordbSync.State.Engine
import AeordbSync.Library.Grouping
import AeordbSync.Metadata

namespace AeordbSync
open Characters Effect StateStore

/-- The lowercase hexadecimal digest of a path. -/
structure PathHash where
  hash : Text → Text
  hex : ∀ path, ∀ c ∈ hash path, c ∈ text "0123456789abcdef"

/-- Identifiers are made of hexadecimal digits and hyphens. -/
structure RelationshipId where
  text : Text
  named : text ≠ []
  flat : '/' ∉ text

namespace RelationshipId

theorem sample_named : AeordbSync.text "6f1c" ≠ [] := by decide

theorem sample_flat : '/' ∉ AeordbSync.text "6f1c" := by decide

instance : DecidableEq RelationshipId := fun a b =>
  decidable_of_iff (a.text = b.text) (by
    constructor
    · intro same
      cases a
      cases b
      cases same
      rfl
    · intro same
      rw [same])

end RelationshipId

/-- The places of the state database that belong to one relationship. -/
inductive Slot where
  | checkpoint (id : RelationshipId)
  | migration (id : RelationshipId)
  | legacy (id : RelationshipId) (name : Text)
  | index (id : RelationshipId)
  | v2 (id : RelationshipId) (name : Text)
  deriving DecidableEq

def syncFilesDir (id : RelationshipId) : Text := text "/sync/files/" ++ id.text ++ text "/"

def fileMetaV2RelationshipDir (id : RelationshipId) : Text := text "/sync/files-v2/" ++ id.text ++ text "/"

def Slot.path : Slot → Text
  | .checkpoint id => text "/sync/meta/" ++ id.text ++ text ".json"
  | .migration id => text "/sync/migrations/" ++ id.text ++ text ".json"
  | .legacy id name => syncFilesDir id ++ name
  | .index id => text "/sync/files-index/" ++ id.text ++ text ".json"
  | .v2 id name => fileMetaV2RelationshipDir id ++ name

def manifestName : Text := text "manifest.json"

def bucketName (bucket : Text) : Text := bucket ++ text ".json"

/-- The bucket of a hash is given by its first digits. -/
def fileMetaBucketFromHash (pathHash : Text) : Text := pathHash.take 3

def SyncStatus.json : SyncStatus → Json
  | .synced => .string (text "synced")
  | .pendingPush => .string (text "pending_push")
  | .pendingPull => .string (text "pending_pull")
  | .error => .string (text "error")

def SyncStatus.ofJson (json : Json) : Option SyncStatus := do
  let name ← json.string?
  if name = text "synced" then some .synced
  else if name = text "pending_push" then some .pendingPush
  else if name = text "pending_pull" then some .pendingPull
  else if name = text "error" then some .error
  else none

namespace FileSyncMeta

def json (record : FileSyncMeta) : Json :=
  .object [⟨text "path", .string record.path⟩, ⟨text "content_hash", .string record.contentHash⟩,
    ⟨text "size", .number record.size⟩, ⟨text "modified_at", .number record.modifiedAt⟩,
    ⟨text "sync_status", record.syncStatus.json⟩, ⟨text "last_synced_at", .number record.lastSyncedAt⟩]

def ofJson (json : Json) : Option FileSyncMeta := do
  let path ← (json.get (text "path")).bind Json.string?
  let contentHash ← (json.get (text "content_hash")).bind Json.string?
  let size ← (json.get (text "size")).bind Json.nat?
  let modifiedAt ← (json.get (text "modified_at")).bind Json.number?
  let syncStatus ← (json.get (text "sync_status")).bind SyncStatus.ofJson
  let lastSyncedAt ← (json.get (text "last_synced_at")).bind Json.number?
  pure ⟨path, contentHash, size, modifiedAt, syncStatus, lastSyncedAt⟩

end FileSyncMeta

/-- A map from texts to records, as a document keeps it. -/
abbrev Items := AList fun _ : Text => FileSyncMeta

namespace Items

def fields (items : Items) : Json.Fields := items.entries.map (Sigma.map id fun _ record => record.json)

def json (items : Items) : Json := .object items.fields

def entryOfField (field : Sigma fun _ : Text => Json) : Option (Sigma fun _ : Text => FileSyncMeta) :=
  (FileSyncMeta.ofJson field.2).map (Sigma.mk field.1)

/-- A map is read only if each of its records is. -/
def ofJson : Json → Option Items
  | .object fields => (fields.mapM entryOfField).map List.toAList
  | _ => none

def values (items : Items) : List FileSyncMeta := items.entries.map Sigma.snd

end Items

structure FileMetaBucket where
  version : Nat
  items : Items

namespace FileMetaBucket

def json (bucket : FileMetaBucket) : Json :=
  .object [⟨text "$v", .number bucket.version⟩, ⟨text "items", bucket.items.json⟩]

/-- The version has no default, the records have one. -/
def ofJson (json : Json) : Option FileMetaBucket := do
  let version ← (json.get (text "$v")).bind Json.nat?
  let items ← match json.get (text "items") with
    | none => some ∅
    | some items => Items.ofJson items
  if version < 256 then some ⟨version, items⟩ else none

end FileMetaBucket

def manifestJson : Json :=
  .object [⟨text "$v", .number 1⟩, ⟨text "bucket_prefix_hex_chars", .number 3⟩]

namespace SyncMetadataStore

variable {σ : Type} (engine : StateEngine σ) (blake3 : PathHash)

def fileMetaBucketKeyForBucket (id : RelationshipId) (bucket : Text) : Slot := .v2 id (bucketName bucket)

def fileMetaBucketKey (id : RelationshipId) (pathHash : Text) : Slot :=
  fileMetaBucketKeyForBucket id (fileMetaBucketFromHash pathHash)

def fileMetaKey (id : RelationshipId) (remotePath : Text) : Slot :=
  .legacy id (blake3.hash remotePath ++ text ".json")

def hasV2Manifest (id : RelationshipId) : Call σ Bool := pathExists engine (Slot.v2 id manifestName).path

/-- The records of the documents of a directory, each of which has to be readable. -/
def readAll {α : Type} (decode : Json → Option α) (directory : Text) : List Text → Call σ (List α)
  | [] => pure []
  | name :: rest => do
      let found ← readJson engine decode (directory ++ name)
      let more ← readAll decode directory rest
      pure (found.toList ++ more)

def listFileMetasLegacy (id : RelationshipId) : Call σ (List FileSyncMeta) := do
  if ← pathExists engine (syncFilesDir id) then
    let entries ← listDirectory engine (syncFilesDir id)
    readAll engine FileSyncMeta.ofJson (syncFilesDir id) (entries.filter (· ≠ text ".keep"))
  else pure []

/-- Collecting keeps the last record of each path. -/
def collected (metas : List FileSyncMeta) : Items :=
  metas.foldl (fun index record => index.insert record.path record) ∅

def loadLegacyFileMetaIndex (id : RelationshipId) : Call σ Items := do
  match ← readJson engine Items.ofJson (Slot.index id).path with
  | some index => pure index
  | none => do
      let legacy ← listFileMetasLegacy engine id
      pure (collected legacy)

def storeLegacyFileMetaIndex (id : RelationshipId) (index : Items) : Call σ Unit :=
  storeJson engine (Slot.index id).path index.json

def getFileMeta (id : RelationshipId) (remotePath : Text) : Call σ (Option FileSyncMeta) := do
  let pathHash := blake3.hash remotePath
  if ← hasV2Manifest engine id then
    let bucket ← readJson engine FileMetaBucket.ofJson (fileMetaBucketKey id pathHash).path
    pure (bucket.bind fun bucket => bucket.items.lookup pathHash)
  else
    let legacyIndex ← loadLegacyFileMetaIndex engine id
    match legacyIndex.lookup remotePath with
    | some record => pure (some record)
    | none => readJson engine FileSyncMeta.ofJson (fileMetaKey blake3 id remotePath).path

/-- The records of an index, sorted into their buckets. -/
def indexBuckets (index : Items) : AList fun _ : Text => Items :=
  Grouping.grouped (fun record => fileMetaBucketFromHash (blake3.hash record.path)) ∅
    (fun record (items : Items) => items.insert (blake3.hash record.path) record) index.values

def migratedFiles (id : RelationshipId) (index : Items) : List (Text × Json) :=
  (indexBuckets blake3 index).entries.map fun entry =>
    ((fileMetaBucketKeyForBucket id entry.1).path, FileMetaBucket.json ⟨1, entry.2⟩)

def ensureV2Storage (id : RelationshipId) : Call σ Unit := do
  if ← hasV2Manifest engine id then pure ()
  else
    let index ← loadLegacyFileMetaIndex engine id
    let files := if index.entries = [] then [] else migratedFiles blake3 id index
    storeJsonValuesBatch engine (files ++ [((Slot.v2 id manifestName).path, manifestJson)])

/-- The patch of each bucket. A later record of a path replaces an earlier one. -/
def bucketItems (id : RelationshipId) (metas : List FileSyncMeta) : AList fun _ : Text => Json.Fields :=
  Grouping.grouped (fun record => (fileMetaBucketKey id (blake3.hash record.path)).path) []
    (fun record (fields : Json.Fields) => fields.kinsert (blake3.hash record.path) record.json) metas

def bucketPatch (items : Json.Fields) : Json :=
  .object [⟨text "$v", .number 1⟩, ⟨text "items", .object items⟩]

def setFileMetasBatch (id : RelationshipId) (metas : List FileSyncMeta) : Call σ Unit :=
  if metas = [] then pure ()
  else do
    ensureV2Storage engine blake3 id
    mergeJsonFilesBatch engine
      ((bucketItems blake3 id metas).entries.map fun entry => (entry.1, bucketPatch entry.2))

def setFileMeta (id : RelationshipId) (record : FileSyncMeta) : Call σ Unit :=
  setFileMetasBatch engine blake3 id [record]

def deletePatch (pathHash : Text) : Json :=
  .object [⟨text "items", .object [⟨pathHash, .null⟩]⟩]

def deleteIfPresent (path : Text) : Call σ Unit := do
  if ← pathExists engine path then delete engine path
  else pure ()

def deleteFileMeta (id : RelationshipId) (remotePath : Text) : Call σ Unit := do
  if ← hasV2Manifest engine id then
    let pathHash := blake3.hash remotePath
    mergeJsonFile engine (fileMetaBucketKey id pathHash).path (deletePatch pathHash)
  else
    let index ← loadLegacyFileMetaIndex engine id
    if (index.lookup remotePath).isSome then
      storeLegacyFileMetaIndex engine id (index.erase remotePath)
    deleteIfPresent engine (fileMetaKey blake3 id remotePath).path

def isBucketEntry (entry : Text) : Bool :=
  decide (entry ≠ text ".keep" ∧ entry ≠ manifestName ∧ text ".json" <:+ entry)

def listFileMetasV2 (id : RelationshipId) : Call σ (List FileSyncMeta) := do
  if ← pathExists engine (fileMetaV2RelationshipDir id) then
    let entries ← listDirectory engine (fileMetaV2RelationshipDir id)
    let buckets ← readAll engine FileMetaBucket.ofJson (fileMetaV2RelationshipDir id)
      (entries.filter isBucketEntry)
    pure (buckets.flatMap fun bucket => bucket.items.values)
  else pure []

def listFileMetas (id : RelationshipId) : Call σ (List FileSyncMeta) := do
  if ← hasV2Manifest engine id then listFileMetasV2 engine id
  else
    let index ← loadLegacyFileMetaIndex engine id
    if index.entries = [] then listFileMetasLegacy engine id
    else pure index.values

def checkpointJson (checkpoint : SyncCheckpoint) : Json :=
  .object [⟨text "relationship_id", .string checkpoint.relationshipId⟩,
    ⟨text "remote_root_hash", .string checkpoint.remoteRootHash⟩,
    ⟨text "last_sync_at", .number checkpoint.lastSyncAt⟩]

def migrationJson (migration : SyncPathMigration) : Json :=
  .object [⟨text "relationship_id", .string migration.relationshipId⟩,
    ⟨text "old_remote_path", .string migration.oldRemotePath⟩,
    ⟨text "new_remote_path", .string migration.newRemotePath⟩,
    ⟨text "old_local_path", .string migration.oldLocalPath⟩,
    ⟨text "new_local_path", .string migration.newLocalPath⟩,
    ⟨text "created_at", .number migration.createdAt⟩]

def clearCheckpoint (id : RelationshipId) : Call σ Unit := deleteIfPresent engine (Slot.checkpoint id).path

def beginPathMigration (id : RelationshipId) (migration : SyncPathMigration) : Call σ Unit := do
  clearCheckpoint engine id
  storeJson engine (Slot.migration id).path (migrationJson migration)

def clearPathMigration (id : RelationshipId) : Call σ Unit := deleteIfPresent engine (Slot.migration id).path

/-- Every document of a directory is deleted. -/
def clearDirectory (directory : Text) : Call σ Unit := do
  if ← pathExists engine directory then
    let entries ← listDirectory engine directory
    Proc.forEach (entries.filter (· ≠ text ".keep")) fun entry => delete engine (directory ++ entry)
  else pure ()

def clearRelationshipState (id : RelationshipId) : Call σ Unit := do
  clearCheckpoint engine id
  clearPathMigration engine id
  clearDirectory engine (syncFilesDir id)
  deleteIfPresent engine (Slot.index id).path
  clearDirectory engine (fileMetaV2RelationshipDir id)

end SyncMetadataStore

end AeordbSync

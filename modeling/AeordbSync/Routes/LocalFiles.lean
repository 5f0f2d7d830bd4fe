import AeordbSync.Library.Canonical
import AeordbSync.Routes.Ranges
import AeordbSync.Routes.RemoteFiles

namespace AeordbSync
open Characters OsPath FileSystem

def pathTraversalDenied : ClientError := .forbidden (text "path traversal denied")

def safeLocalPath (disk : Tree) (relationship : SyncRelationship) (relativePath : Text) :
    Except ClientError PathBuf :=
  let localBase := relationship.localBase
  let cleaned := (relativePath.splitOn '/').filter (· ≠ [])
  if text ".." ∈ cleaned then .error pathTraversalDenied
  else
    let requested := join localBase (osText (joinWith '/' cleaned))
    match disk.canonicalize localBase, disk.canonicalize requested with
    | .ok canonicalBase, .ok canonical =>
        if startsWith canonical canonicalBase then .ok canonical else .error pathTraversalDenied
    | _, _ => .ok requested

/-- What the remote answers to a download. -/
structure RemoteFile where
  status : Nat
  contentType : Option Text
  size : Nat
  contentLength : Option Text
  contentRange : Option Text
  body : Except IoError Bytes

/-- What the file routes ask of the system and of the remote. -/
structure FileRoutes where
  other : OtherMetadata
  download : RemoteConnection → Text → Option Text → Except ClientError RemoteFile
  openThat : PathBuf → Except Text Unit

/-- A file comes from the disk or from the remote. -/
inductive ServedFrom where
  | disk (path : PathBuf)
  | remote (connection : RemoteConnection) (path : Text)
  deriving DecidableEq

/-- The file that a route opens or downloads. -/
def serveFrom (config : ClientConfig) (disk : Tree) (relationshipId relativePath : Text) (source : Option Text) :
    Except ClientError ServedFrom := do
  let (relationship, connection) ← Routes.loadRelationshipClient config relationshipId
  let localPath ← safeLocalPath disk relationship relativePath
  let localExists := disk.pathExists localPath
  if source = some (text "local") ∧ localExists = false then
    .error (.notFound (text "file not found locally"))
  else if source ≠ some (text "remote") ∧ localExists = true then .ok (.disk localPath)
  else .ok (.remote connection (Routes.computeRemotePath relationship relativePath))

def RemoteFile.response (file : RemoteFile) (relativePath : Text) : FileResponse where
  status := file.status
  headers := [(text "content-type", file.contentType.getD (guessContentType relativePath)),
      (text "accept-ranges", text "bytes"), (text "x-aeordb-size", decimal file.size)] ++
    (file.contentLength.toList.map fun value => (text "content-length", value)) ++
    (file.contentRange.toList.map fun value => (text "content-range", value))
  body := file.body

def serveFile (routes : FileRoutes) (config : ClientConfig) (disk : Tree) (relationshipId relativePath : Text)
    (source : Option Text) (rangeHeader : Option (Option Text)) : Except ClientError FileResponse :=
  match serveFrom config disk relationshipId relativePath source with
  | .error error => .error error
  | .ok (.disk localPath) => serveLocalFile routes.other disk localPath relativePath rangeHeader
  | .ok (.remote connection remotePath) => match routes.download connection remotePath rangeHeader.join with
    | .error error => .error (.badGateway error.display)
    | .ok file => .ok (file.response relativePath)

/-- The path that is handed to the opener of the system. -/
def openedPath (config : ClientConfig) (disk : Tree) (relationshipId path : Text) : Except ClientError PathBuf := do
  let relationship ← match config.relationship? relationshipId with
    | none => .error (Routes.relationshipNotFound relationshipId)
    | some relationship => .ok relationship
  let localPath ← safeLocalPath disk relationship.toSyncRelationship path
  if disk.pathExists localPath = true then .ok localPath
  else .error (.notFound (text "file not found locally: " ++ path))

def openLocally (routes : FileRoutes) (config : ClientConfig) (disk : Tree) (relationshipId path : Text) :
    Except ClientError PathBuf :=
  match openedPath config disk relationshipId path with
  | .error error => .error error
  | .ok localPath => match routes.openThat localPath with
    | .error error => .error (.server (text "failed to open: " ++ error))
    | .ok () => .ok localPath

/-- The entry of the path lies in the directory of the relationship when symlinks are followed. -/
def Contained (disk : Tree) (relationship : SyncRelationship) (path : PathBuf) : Prop :=
  ∃ canonicalBase canonical, disk.canonicalize relationship.localBase = .ok canonicalBase ∧
    disk.canonicalize path = .ok canonical ∧ startsWith canonical canonicalBase = true

section Served

variable {disk : Tree} {relationship : SyncRelationship} {relativePath : Text} {path : PathBuf}

/-- A path that the filter lets pass is contained when it exists. -/
theorem safeLocalPath_contained (there : disk.pathExists relationship.localBase = true)
    (safe : safeLocalPath disk relationship relativePath = .ok path) (present : disk.pathExists path = true) :
    Contained disk relationship path := by
  obtain ⟨canonicalBase, base⟩ := Tree.pathExists_iff.mp there
  obtain ⟨canonical, found⟩ := Tree.pathExists_iff.mp present
  unfold safeLocalPath at safe
  extract_lets localBase cleaned requested at safe
  split at safe
  · cases safe
  · split at safe
    next first second atBase atRequested =>
      split at safe
      next inside =>
        cases safe
        exact ⟨first, path, atBase, Tree.canonicalize_canonical atRequested, inside⟩
      next => cases safe
    next unresolved =>
      rw [← Except.ok.inj safe] at found
      exact absurd found (unresolved _ _ base)

/-- Every route that opens a local file has had its path filtered, and the file exists. -/
theorem serveFrom_disk {config : ClientConfig} {relationshipId : Text} {source : Option Text}
    {stored : StoredRelationship} (configured : config.relationship? relationshipId = some stored)
    (served : serveFrom config disk relationshipId relativePath source = .ok (.disk path)) :
    safeLocalPath disk stored.toSyncRelationship relativePath = .ok path ∧ disk.pathExists path = true := by
  unfold serveFrom at served
  obtain ⟨⟨loaded, connection⟩, load, served⟩ := bind_eq_ok served
  obtain ⟨localPath, safe, served⟩ := bind_eq_ok served
  have same : loaded = stored.toSyncRelationship := by
    unfold Routes.loadRelationshipClient at load
    rw [configured] at load
    split at load
    · cases load
    next equal =>
      cases equal
      split at load
      · cases load
      · cases load
        rfl
  subst same
  dsimp only at served
  split at served
  · cases served
  · split at served
    next present =>
      cases served
      exact ⟨safe, present.2⟩
    · cases served

theorem openedPath_disk {config : ClientConfig} {relationshipId : Text} {stored : StoredRelationship}
    (configured : config.relationship? relationshipId = some stored)
    (opened : openedPath config disk relationshipId relativePath = .ok path) :
    safeLocalPath disk stored.toSyncRelationship relativePath = .ok path ∧ disk.pathExists path = true := by
  unfold openedPath at opened
  rw [configured] at opened
  obtain ⟨localPath, safe, opened⟩ := bind_eq_ok (show safeLocalPath _ _ _ >>= _ = _ from opened)
  split at opened
  next present =>
    cases opened
    exact ⟨safe, present⟩
  · cases opened

end Served

/-- What exists at a path that the filter lets pass lies in the directory of the relationship, and no
route opens anything else. -/
theorem localFiles_contained {config : ClientConfig} {relationshipId : Text} {stored : StoredRelationship}
    (configured : config.relationship? relationshipId = some stored) {disk : Tree}
    (there : disk.pathExists stored.localBase = true) (relativePath : Text) :
    (∀ path, safeLocalPath disk stored.toSyncRelationship relativePath = .ok path →
        disk.pathExists path = true → Contained disk stored.toSyncRelationship path) ∧
      (∀ source path, serveFrom config disk relationshipId relativePath source = .ok (.disk path) →
        Contained disk stored.toSyncRelationship path) ∧
      ∀ path, openedPath config disk relationshipId relativePath = .ok path →
        Contained disk stored.toSyncRelationship path := by
  refine ⟨fun path safe present => safeLocalPath_contained there safe present, ?_, ?_⟩
  · intro source path served
    obtain ⟨safe, present⟩ := serveFrom_disk configured served
    exact safeLocalPath_contained there safe present
  · intro path opened
    obtain ⟨safe, present⟩ := openedPath_disk configured opened
    exact safeLocalPath_contained there safe present

/-- A directory with a file, and with a symlink that leads out of it. -/
def linkedDisk : Tree :=
  Tree.ofList [([osText (text "home")], .directory), ([osText (text "etc")], .directory),
    ([osText (text "etc"), osText (text "passwd")], .file [1] 0),
    ([osText (text "home"), osText (text "a")], .file [2] 0),
    ([osText (text "home"), osText (text "out")], .symlink (osText (text "../etc")) 0)]

def sharedRelationship : StoredRelationship := ⟨rootedAt "/", 0, 0⟩

def sharedConfig : ClientConfig :=
  ⟨[⟨text "engine", text "engine", text "http://engine", .none, none, none, 0, 0⟩], [sharedRelationship], .initial⟩

/-- The file is served, and the path through the symlink is refused. -/
theorem localFiles_contained_linked : openedPath sharedConfig linkedDisk (text "/") (text "./a") =
      .ok (ofText (osText (text "/home/a"))) ∧
    Contained linkedDisk (rootedAt "/") (ofText (osText (text "/home/a"))) ∧
    safeLocalPath linkedDisk (rootedAt "/") (text "out/passwd") = .error pathTraversalDenied := by
  have opened : openedPath sharedConfig linkedDisk (text "/") (text "./a") =
      .ok (ofText (osText (text "/home/a"))) := by decide +kernel
  have configured : sharedConfig.relationship? (text "/") = some sharedRelationship := by decide
  refine ⟨opened, ?_, by decide +kernel⟩
  exact (localFiles_contained configured (by decide +kernel) _).2.2 _ opened

end AeordbSync

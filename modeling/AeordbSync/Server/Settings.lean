import Mathlib.Data.List.Sort
import AeordbSync.Metadata

namespace AeordbSync
open Characters OsPath

/-- A field that is absent keeps its value. -/
structure UpdateSyncRelationshipRequest where
  name : Option Text
  remotePath : Option Text
  localPath : Option Text
  direction : Option SyncDirection
  filter : Option Text
  deletePropagation : Option DeletePropagation
  enabled : Option Bool
  deriving DecidableEq

def SyncRelationship.updated (relationship : SyncRelationship) (request : UpdateSyncRelationshipRequest) :
    SyncRelationship where
  id := relationship.id
  name := request.name.getD relationship.name
  remoteConnectionId := relationship.remoteConnectionId
  remotePath := (request.remotePath.map normalizeRemotePath).getD relationship.remotePath
  localPath := request.localPath.getD relationship.localPath
  direction := request.direction.getD relationship.direction
  filter := match request.filter with
    | none => relationship.filter
    | some filter => if filter = [] then none else some filter
  deletePropagation := request.deletePropagation.getD relationship.deletePropagation
  enabled := request.enabled.getD relationship.enabled

def enabledRequest (enabled : Bool) : UpdateSyncRelationshipRequest :=
  ⟨none, none, none, none, none, none, some enabled⟩

/-- The paths that the handler expects the relationship to have after the update. -/
def SyncRelationship.pathsChanged (existing : SyncRelationship) (request : UpdateSyncRelationshipRequest) :
    Bool :=
  decide ((existing.updated request).localPath ≠ existing.localPath) ||
    decide ((existing.updated request).remotePath ≠ existing.remotePath)

def SyncDirection.canPush : SyncDirection → Bool
  | .pullOnly => false
  | _ => true

def SyncDirection.canPull : SyncDirection → Bool
  | .pushOnly => false
  | _ => true

/-- Everything about a relationship that a sync looks at. -/
def SyncRelationship.settings (relationship : SyncRelationship) : SyncRelationship :=
  { relationship with name := [] }

abbrev Config := List SyncRelationship

namespace Config

def get (config : Config) (id : Text) : Option SyncRelationship :=
  config.find? fun relationship => relationship.id = id

/-- The relationships come in the order of their names. -/
def list (config : Config) : Config := config.insertionSort fun a b => a.name ≤ b.name

/-- Only the first relationship with the identifier is changed. -/
def update (config : Config) (id : Text) (request : UpdateSyncRelationshipRequest) : Config :=
  match config with
  | [] => []
  | relationship :: rest =>
      if relationship.id = id then relationship.updated request :: rest
      else relationship :: update rest id request

def delete (config : Config) (id : Text) : Config :=
  config.filter fun relationship => relationship.id ≠ id

theorem id_of_get {config : Config} {id : Text} {relationship : SyncRelationship}
    (found : get config id = some relationship) : relationship.id = id := by
  simpa using List.find?_some found

theorem get_update (config : Config) (id : Text) (request : UpdateSyncRelationshipRequest)
    (other : Text) : get (update config id request) other =
      if other = id then (get config id).map (SyncRelationship.updated · request)
      else get config other := by
  induction config with
  | nil => simp [get, update]
  | cons first rest ih =>
      by_cases here : first.id = id
      · by_cases same : other = id
        · simp [update, get, here, same, SyncRelationship.updated]
        · simp [update, get, here, same, Ne.symm same, SyncRelationship.updated]
      · by_cases found : first.id = other
        · have differs : other ≠ id := found ▸ here
          simp [update, get, found, differs]
        · have tail : get (first :: rest) other = get rest other := by simp [get, found]
          have head : get (first :: rest) id = get rest id := by simp [get, here]
          rw [tail, head, ← ih]
          simp [update, get, here, found]

theorem get_delete (config : Config) (id other : Text) :
    get (delete config id) other = if other = id then none else get config other := by
  rw [get, delete, List.find?_filter]
  split
  next same =>
    subst same
    simp
  next differs =>
    unfold get
    congr 1
    funext relationship
    by_cases equal : relationship.id = other
    · simp [equal, differs]
    · simp [equal]

end Config

end AeordbSync

import Mathlib.Data.List.Sort
import AeordbSync.Library.Persisted
import AeordbSync.Server.Settings

namespace AeordbSync
open Characters Effect Persisted

structure ClientSettings where
  syncIntervalSeconds : Nat
  autoStartSync : Bool
  autoStartSystem : Bool
  clientName : Option Text
  deriving DecidableEq

def ClientSettings.initial : ClientSettings := ⟨60, true, false, none⟩

inductive AuthType where
  | apiKey
  | none
  deriving DecidableEq

structure RemoteConnection where
  id : Text
  name : Text
  url : Text
  authType : AuthType
  apiKey : Option Text
  shareBaseUrl : Option Text
  createdAt : Int
  updatedAt : Int
  deriving DecidableEq

/-- A relationship as the configuration keeps it. -/
structure StoredRelationship extends SyncRelationship where
  createdAt : Int
  updatedAt : Int
  deriving DecidableEq

structure ClientConfig where
  connections : List RemoteConnection
  relationships : List StoredRelationship
  settings : ClientSettings
  deriving DecidableEq

def ClientConfig.initial : ClientConfig := ⟨[], [], .initial⟩

structure CreateConnectionRequest where
  name : Text
  url : Text
  authType : AuthType
  apiKey : Option Text
  shareBaseUrl : Option Text

/-- A nullable field is absent, null or a text. -/
structure UpdateConnectionRequest where
  name : Option Text
  url : Option Text
  authType : Option AuthType
  apiKey : Option (Option Text)
  shareBaseUrl : Option (Option Text)

structure CreateSyncRelationshipRequest where
  name : Text
  remoteConnectionId : Text
  remotePath : Text
  localPath : Text
  direction : SyncDirection
  filter : Option Text
  deletePropagation : Option DeletePropagation
  deriving DecidableEq

structure UpdateSettingsRequest where
  syncIntervalSeconds : Option Nat
  autoStartSync : Option Bool
  autoStartSystem : Option Bool
  clientName : Option Text

def normalizeUrl (input : Text) : Text :=
  let trimmed := trimEndMatches '/' (trim input)
  if trimmed = [] then []
  else if contains trimmed (text "://") then trimmed
  else text "http://" ++ trimmed

def CreateConnectionRequest.connection (request : CreateConnectionRequest) (id : Text) (now : Int) :
    RemoteConnection where
  id := id
  name := request.name
  url := normalizeUrl request.url
  authType := request.authType
  apiKey := request.apiKey
  shareBaseUrl := request.shareBaseUrl
  createdAt := now
  updatedAt := now

def nonEmpty (value : Option Text) : Option Text := value.filter (· ≠ [])

/-- The key decides the authentication after the requested one. -/
def RemoteConnection.updated (connection : RemoteConnection) (request : UpdateConnectionRequest)
    (now : Int) : RemoteConnection :=
  let named := { connection with
    name := request.name.getD connection.name
    url := (request.url.map normalizeUrl).getD connection.url }
  let authorized := match request.authType with
    | none => named
    | some authType =>
        { named with authType := authType, apiKey := if authType = AuthType.none then none else named.apiKey }
  let keyed := match request.apiKey with
    | none => authorized
    | some apiKey =>
        { authorized with
          apiKey := nonEmpty apiKey
          authType := if (nonEmpty apiKey).isSome then .apiKey else .none }
  let shared := match request.shareBaseUrl with
    | none => keyed
    | some shareBaseUrl => { keyed with shareBaseUrl := nonEmpty shareBaseUrl }
  { shared with updatedAt := now }

/-- The identifier of a connection never changes. -/
theorem RemoteConnection.updated_id (connection : RemoteConnection) (request : UpdateConnectionRequest)
    (now : Int) : (connection.updated request now).id = connection.id := by
  obtain ⟨name, url, authType, apiKey, shareBaseUrl⟩ := request
  cases authType <;> cases apiKey <;> cases shareBaseUrl <;> rfl

def CreateSyncRelationshipRequest.relationship (request : CreateSyncRelationshipRequest) (id : Text)
    (now : Int) : StoredRelationship where
  id := id
  name := request.name
  remoteConnectionId := request.remoteConnectionId
  remotePath := normalizeRemotePath request.remotePath
  localPath := request.localPath
  direction := request.direction
  filter := request.filter
  deletePropagation := request.deletePropagation.getD ⟨false, false⟩
  enabled := true
  createdAt := now
  updatedAt := now

def StoredRelationship.updated (relationship : StoredRelationship)
    (request : UpdateSyncRelationshipRequest) (now : Int) : StoredRelationship where
  toSyncRelationship := relationship.toSyncRelationship.updated request
  createdAt := relationship.createdAt
  updatedAt := now

def ClientSettings.updated (settings : ClientSettings) (request : UpdateSettingsRequest) :
    ClientSettings where
  syncIntervalSeconds := request.syncIntervalSeconds.getD settings.syncIntervalSeconds
  autoStartSync := request.autoStartSync.getD settings.autoStartSync
  autoStartSystem := request.autoStartSystem.getD settings.autoStartSystem
  clientName := match request.clientName with
    | none => settings.clientName
    | some clientName => if clientName = [] then none else some clientName

namespace ClientConfig

def connection? (config : ClientConfig) (id : Text) : Option RemoteConnection :=
  config.connections.find? fun connection => connection.id = id

def relationship? (config : ClientConfig) (id : Text) : Option StoredRelationship :=
  config.relationships.find? fun relationship => relationship.id = id

def dependants (config : ClientConfig) (id : Text) : List StoredRelationship :=
  config.relationships.filter fun relationship => relationship.remoteConnectionId = id

end ClientConfig

/-- The updaters of the managers and of the settings handler. -/
inductive ConfigUpdate where
  | createConnection (connection : RemoteConnection)
  | updateConnection (id : Text) (request : UpdateConnectionRequest) (now : Int)
  | deleteConnection (id : Text)
  | createRelationship (relationship : StoredRelationship)
  | updateRelationship (id : Text) (request : UpdateSyncRelationshipRequest) (now : Int)
  | deleteRelationship (id : Text)
  | updateSettings (request : UpdateSettingsRequest)

namespace ConfigUpdate

/-- What the closure does to the configuration that it is given. -/
def apply (config : ClientConfig) : ConfigUpdate → ClientConfig
  | .createConnection connection => { config with connections := config.connections ++ [connection] }
  | .updateConnection id request now =>
      { config with connections := config.connections.replaceF fun connection =>
          if connection.id = id then some (connection.updated request now) else none }
  | .deleteConnection id =>
      if config.dependants id = [] then
        { config with connections := config.connections.filter fun connection => connection.id ≠ id }
      else config
  | .createRelationship relationship =>
      { config with relationships := config.relationships ++ [relationship] }
  | .updateRelationship id request now =>
      { config with relationships := config.relationships.replaceF fun relationship =>
          if relationship.id = id then some (relationship.updated request now) else none }
  | .deleteRelationship id =>
      { config with relationships := config.relationships.filter fun relationship => relationship.id ≠ id }
  | .updateSettings request => { config with settings := config.settings.updated request }

end ConfigUpdate

/-- Where a save fails. A write that fails leaves what it has come to. -/
inductive SaveFault where
  | serialize (error : Text)
  | write (error : Text) (left : Option Text)
  | permissions (error : Text)

abbrev ConfigStore := Store ClientConfig Text

/-- The path in the form in which the messages show it, and the YAML text of a configuration. -/
structure ConfigFormat where
  path : Text
  yaml : ClientConfig → Text

namespace ConfigStore

def saveInner (format : ConfigFormat) (fault : Option SaveFault) (config : ClientConfig) :
    Proc (Option Text) ClientError Unit := fun file =>
  match fault with
  | some (.serialize error) =>
      (.error (.configuration (text "failed to serialize config: " ++ error)), file)
  | some (.write error left) =>
      (.error (.configuration (text "failed to write config to " ++ format.path ++ text ": " ++ error)),
        left)
  | some (.permissions error) =>
      (.error (.configuration
        (text "failed to set config permissions on " ++ format.path ++ text ": " ++ error)),
        some (format.yaml config))
  | none => (.ok (), some (format.yaml config))

def save (format : ConfigFormat) (fault : Option SaveFault) : Proc ConfigStore ClientError Unit := do
  let store ← Proc.get
  Store.onFile (saveInner format fault store.memory)

def get : Proc ConfigStore ClientError ClientConfig := do
  let store ← Proc.get
  pure store.memory

def update (format : ConfigFormat) (fault : Option SaveFault) (updater : ClientConfig → ClientConfig) :
    Proc ConfigStore ClientError Unit :=
  Store.changeThenSave (saveInner format fault) updater

/-- A closure may keep what it has seen in the configuration. -/
def updateSeeing {ω : Type} (format : ConfigFormat) (fault : Option SaveFault) (change : ConfigUpdate)
    (seen : ClientConfig → ω) : Proc ConfigStore ClientError ω := do
  let store ← Proc.get
  update format fault (ConfigUpdate.apply · change)
  pure (seen store.memory)

end ConfigStore

def found {α : Type} (missing : Text) : Option α → Except ClientError α
  | none => .error (.notFound missing)
  | some value => .ok value

namespace ConnectionManager

def create (format : ConfigFormat) (fault : Option SaveFault) (request : CreateConnectionRequest)
    (id : Text) (now : Int) : Proc ConfigStore ClientError RemoteConnection :=
  let connection := request.connection id now
  ConfigStore.updateSeeing format fault (.createConnection connection) fun _ => connection

def normalized (connection : RemoteConnection) : RemoteConnection :=
  { connection with url := normalizeUrl connection.url }

def list : Proc ConfigStore ClientError (List RemoteConnection) := do
  let config ← ConfigStore.get
  pure ((config.connections.map normalized).insertionSort fun a b => a.name ≤ b.name)

def get (id : Text) : Proc ConfigStore ClientError (Option RemoteConnection) := do
  let config ← ConfigStore.get
  pure ((config.connection? id).map normalized)

def missing (id : Text) : Text := text "connection not found: " ++ id

def update (format : ConfigFormat) (fault : Option SaveFault) (id : Text)
    (request : UpdateConnectionRequest) (now : Int) : Proc ConfigStore ClientError RemoteConnection := do
  let updated ← ConfigStore.updateSeeing format fault (.updateConnection id request now)
    fun config => (config.connection? id).map (RemoteConnection.updated · request now)
  Proc.ofExcept (found (missing id) updated)

def stillConfigured (count : Nat) : Text :=
  text "connection cannot be deleted while sync relationships are still configured against it (" ++
    decimal count ++ text " configured); delete those syncs first"

def deleted (id : Text) (config : ClientConfig) : Except ClientError Unit :=
  if 0 < (config.dependants id).length then
    .error (.badRequest (stillConfigured (config.dependants id).length))
  else if (config.connection? id).isNone then .error (.notFound (missing id))
  else .ok ()

def delete (format : ConfigFormat) (fault : Option SaveFault) (id : Text) :
    Proc ConfigStore ClientError Unit := do
  let outcome ← ConfigStore.updateSeeing format fault (.deleteConnection id) (deleted id)
  Proc.ofExcept outcome

end ConnectionManager

namespace RelationshipManager

def missing (id : Text) : Text := text "sync relationship not found: " ++ id

/-- The first step of a creation reads the configuration. -/
def checkConnection (request : CreateSyncRelationshipRequest) : Proc ConfigStore ClientError Unit := do
  let connection ← ConnectionManager.get request.remoteConnectionId
  if connection.isNone then
    Proc.throw (.badRequest (ConnectionManager.missing request.remoteConnectionId))
  else pure ()

/-- The last step of a creation writes it. -/
def store (format : ConfigFormat) (fault : Option SaveFault) (request : CreateSyncRelationshipRequest)
    (id : Text) (now : Int) : Proc ConfigStore ClientError StoredRelationship :=
  let relationship := request.relationship id now
  ConfigStore.updateSeeing format fault (.createRelationship relationship) fun _ => relationship

/-- The local directory is made and checked between the two. -/
def create (format : ConfigFormat) (fault : Option SaveFault) (directory : Except ClientError Unit)
    (request : CreateSyncRelationshipRequest) (id : Text) (now : Int) :
    Proc ConfigStore ClientError StoredRelationship := do
  checkConnection request
  Proc.ofExcept directory
  store format fault request id now

def list : Proc ConfigStore ClientError (List StoredRelationship) := do
  let config ← ConfigStore.get
  pure (config.relationships.insertionSort fun a b => a.name ≤ b.name)

def get (id : Text) : Proc ConfigStore ClientError (Option StoredRelationship) := do
  let config ← ConfigStore.get
  pure (config.relationship? id)

def update (format : ConfigFormat) (fault : Option SaveFault) (id : Text)
    (request : UpdateSyncRelationshipRequest) (now : Int) :
    Proc ConfigStore ClientError StoredRelationship := do
  let updated ← ConfigStore.updateSeeing format fault (.updateRelationship id request now)
    fun config => (config.relationship? id).map (StoredRelationship.updated · request now)
  Proc.ofExcept (found (missing id) updated)

def delete (format : ConfigFormat) (fault : Option SaveFault) (id : Text) :
    Proc ConfigStore ClientError Unit := do
  let known ← ConfigStore.updateSeeing format fault (.deleteRelationship id)
    fun config => config.relationship? id
  Proc.ofExcept ((found (missing id) known).map fun _ => ())

def enable (format : ConfigFormat) (fault : Option SaveFault) (id : Text) (now : Int) :
    Proc ConfigStore ClientError StoredRelationship :=
  update format fault id (enabledRequest true) now

def disable (format : ConfigFormat) (fault : Option SaveFault) (id : Text) (now : Int) :
    Proc ConfigStore ClientError StoredRelationship :=
  update format fault id (enabledRequest false) now

end RelationshipManager

/-- The handler checks the interval before it changes anything. -/
def checkSettings (request : UpdateSettingsRequest) : Except ClientError Unit :=
  if request.syncIntervalSeconds.any fun interval => interval < 10 || interval > 3600 then
    .error (.badRequest (text "sync_interval_seconds must be between 10 and 3600"))
  else .ok ()

def updateSettings (format : ConfigFormat) (fault : Option SaveFault) (request : UpdateSettingsRequest) :
    Proc ConfigStore ClientError ClientSettings := do
  Proc.ofExcept (checkSettings request)
  ConfigStore.update format fault (ConfigUpdate.apply · (.updateSettings request))
  let config ← ConfigStore.get
  pure config.settings

end AeordbSync

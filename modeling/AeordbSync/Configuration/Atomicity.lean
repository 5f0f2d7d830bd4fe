import AeordbSync.Configuration.Store

namespace AeordbSync
open Characters Effect Persisted

namespace ConfigUpdate

/-- The configuration already is as the update would leave it. -/
def Idle (config : ClientConfig) : ConfigUpdate → Prop
  | .createConnection _ => False
  | .updateConnection id request now =>
      ∀ connection, config.connection? id = some connection → connection.updated request now = connection
  | .deleteConnection id =>
      (∃ relationship ∈ config.relationships, relationship.remoteConnectionId = id) ∨
        ∀ connection ∈ config.connections, connection.id ≠ id
  | .createRelationship _ => False
  | .updateRelationship id request now =>
      ∀ relationship, config.relationship? id = some relationship →
        relationship.updated request now = relationship
  | .deleteRelationship id => ∀ relationship ∈ config.relationships, relationship.id ≠ id
  | .updateSettings request => config.settings.updated request = config.settings

end ConfigUpdate

/-- A change of the first entry that fits leaves the list as it is when it leaves that entry as it is. -/
theorem replaceF_eq_self_iff {α : Type} (p : α → Bool) (change : α → α) (entries : List α) :
    (entries.replaceF fun entry => if p entry then some (change entry) else none) = entries ↔
      ∀ entry, entries.find? p = some entry → change entry = entry := by
  induction entries with
  | nil => simp
  | cons first rest ih =>
      by_cases here : p first = true
      · simp [List.replaceF, here]
      · simp [List.replaceF, here, ih]

namespace ConfigUpdate

theorem apply_eq_self_iff (change : ConfigUpdate) (config : ClientConfig) :
    change.apply config = config ↔ change.Idle config := by
  obtain ⟨connections, relationships, settings⟩ := config
  cases change with
  | createConnection connection => simp [apply, Idle]
  | updateConnection id request now =>
      have kept := replaceF_eq_self_iff (fun connection => decide (connection.id = id))
        (RemoteConnection.updated · request now) connections
      simpa [apply, Idle, ClientConfig.connection?] using kept
  | deleteConnection id =>
      by_cases free : ClientConfig.dependants ⟨connections, relationships, settings⟩ id = []
      · have unused := free
        simp [ClientConfig.dependants, List.filter_eq_nil_iff] at unused
        simp [apply, Idle, free, List.filter_eq_self]
        intro relationship inside same
        exact absurd same (unused relationship inside)
      · have used := free
        simp [ClientConfig.dependants, List.filter_eq_nil_iff] at used
        simp [apply, Idle, free]
        exact Or.inl used
  | createRelationship relationship => simp [apply, Idle]
  | updateRelationship id request now =>
      have kept := replaceF_eq_self_iff (fun relationship => decide (relationship.id = id))
        (StoredRelationship.updated · request now) relationships
      simpa [apply, Idle, ClientConfig.relationship?] using kept
  | deleteRelationship id => simp [apply, Idle, List.filter_eq_self]
  | updateSettings request => simp [apply, Idle]

end ConfigUpdate

/-- What a client can learn from the configuration: a value, and the file after a write. -/
inductive ConfigAnswer where
  | config (config : ClientConfig)
  | connections (connections : List RemoteConnection)
  | connection (connection : Option RemoteConnection)
  | relationships (relationships : List StoredRelationship)
  | relationship (relationship : Option StoredRelationship)
  | settings (settings : ClientSettings)
  | done
  deriving DecidableEq

/-- The calls that read, save or change the configuration, with what the environment decides. -/
inductive ConfigCall where
  | get
  | listConnections
  | getConnection (id : Text)
  | listRelationships
  | getRelationship (id : Text)
  | save (fault : Option SaveFault)
  | createConnection (request : CreateConnectionRequest) (id : Text) (now : Int)
      (fault : Option SaveFault)
  | updateConnection (id : Text) (request : UpdateConnectionRequest) (now : Int)
      (fault : Option SaveFault)
  | deleteConnection (id : Text) (fault : Option SaveFault)
  | createRelationship (request : CreateSyncRelationshipRequest) (id : Text) (now : Int)
      (directory : Except ClientError Unit) (fault : Option SaveFault)
  | updateRelationship (id : Text) (request : UpdateSyncRelationshipRequest) (now : Int)
      (fault : Option SaveFault)
  | deleteRelationship (id : Text) (fault : Option SaveFault)
  | updateSettings (request : UpdateSettingsRequest) (fault : Option SaveFault)

namespace ConfigCall

/-- A read answers with a value. -/
def reading {ω : Type} (answer : ω → ConfigAnswer) (call : Proc ConfigStore ClientError ω) :
    Proc ConfigStore ClientError (ConfigAnswer × Option Text) := do
  let value ← call
  pure (answer value, none)

/-- A write also answers with the file that it leaves. -/
def writing {ω : Type} (answer : ω → ConfigAnswer) (call : Proc ConfigStore ClientError ω) :
    Proc ConfigStore ClientError (ConfigAnswer × Option Text) := do
  let value ← Store.written call
  pure (answer value.1, value.2)

def run (format : ConfigFormat) : ConfigCall → Proc ConfigStore ClientError (ConfigAnswer × Option Text)
  | .get => reading .config ConfigStore.get
  | .listConnections => reading .connections ConnectionManager.list
  | .getConnection id => reading .connection (ConnectionManager.get id)
  | .listRelationships => reading .relationships RelationshipManager.list
  | .getRelationship id => reading .relationship (RelationshipManager.get id)
  | .save fault => writing (fun _ => .done) (ConfigStore.save format fault)
  | .createConnection request id now fault =>
      writing (fun connection => .connection (some connection))
        (ConnectionManager.create format fault request id now)
  | .updateConnection id request now fault =>
      writing (fun connection => .connection (some connection))
        (ConnectionManager.update format fault id request now)
  | .deleteConnection id fault => writing (fun _ => .done) (ConnectionManager.delete format fault id)
  | .createRelationship request id now directory fault =>
      writing (fun relationship => .relationship (some relationship))
        (RelationshipManager.create format fault directory request id now)
  | .updateRelationship id request now fault =>
      writing (fun relationship => .relationship (some relationship))
        (RelationshipManager.update format fault id request now)
  | .deleteRelationship id fault => writing (fun _ => .done) (RelationshipManager.delete format fault id)
  | .updateSettings request fault => writing .settings (AeordbSync.updateSettings format fault request)

end ConfigCall

namespace ConfigStore

theorem saveInner_replaces (format : ConfigFormat) (fault : Option SaveFault) :
    Store.Replaces (saveInner format fault) := by
  intro config a b
  cases fault with
  | none => simp [saveInner]
  | some fault => cases fault <;> simp [saveInner]

theorem updateSeeing_overwrites {ω : Type} (format : ConfigFormat) (fault : Option SaveFault)
    (change : ConfigUpdate) (seen : ClientConfig → ω) :
    Store.Overwrites (updateSeeing format fault change seen) :=
  Store.overwrites_reporting (saveInner_replaces format fault) (change.apply ·) seen

theorem update_overwrites (format : ConfigFormat) (fault : Option SaveFault)
    (updater : ClientConfig → ClientConfig) : Store.Overwrites (update format fault updater) :=
  Store.overwrites_changeThenSave (saveInner_replaces format fault) updater

theorem save_overwrites (format : ConfigFormat) (fault : Option SaveFault) :
    Store.Overwrites (save format fault) :=
  Store.overwrites_onFile (saveInner_replaces format fault)

end ConfigStore

namespace ConfigCall

theorem fromMemory_reading {ω : Type} (answer : ω → ConfigAnswer)
    {call : Proc ConfigStore ClientError ω} (told : Store.FromMemory call) :
    Store.FromMemory (reading answer call) :=
  told.bind fun value => Store.fromMemory_ofExcept (.ok (answer value, none))

theorem fromMemory_writing {ω : Type} (answer : ω → ConfigAnswer)
    {call : Proc ConfigStore ClientError ω} (told : Store.Overwrites call) :
    Store.FromMemory (writing answer call) :=
  (Store.FromMemory.written told).bind fun value =>
    Store.fromMemory_ofExcept (.ok (answer value.1, value.2))

/-- The configuration in memory tells every answer, and the file after every write that succeeds. -/
theorem run_fromMemory (format : ConfigFormat) (call : ConfigCall) :
    Store.FromMemory (call.run format) := by
  have update : ∀ {ω : Type} (fault : Option SaveFault) (change : ConfigUpdate) (seen : ClientConfig → ω),
      Store.Overwrites (ConfigStore.updateSeeing format fault change seen) :=
    fun fault change seen => ConfigStore.updateSeeing_overwrites format fault change seen
  have read : ∀ {ω : Type} (answer : ClientConfig → ω),
      Store.FromMemory (ConfigStore.get >>= fun config => pure (answer config)) :=
    fun answer => (Store.fromMemory_read id).bind fun config => Store.fromMemory_ofExcept (.ok (answer config))
  cases call with
  | get => exact fromMemory_reading _ (Store.fromMemory_read id)
  | listConnections => exact fromMemory_reading _ (read _)
  | getConnection id => exact fromMemory_reading _ (read _)
  | listRelationships => exact fromMemory_reading _ (read _)
  | getRelationship id => exact fromMemory_reading _ (read _)
  | save fault => exact fromMemory_writing _ (ConfigStore.save_overwrites format fault)
  | createConnection request id now fault => exact fromMemory_writing _ (update fault _ _)
  | updateConnection id request now fault => exact fromMemory_writing _ ((update fault _ _).ofExcept _)
  | deleteConnection id fault => exact fromMemory_writing _ ((update fault _ _).ofExcept _)
  | createRelationship request id now directory fault =>
      apply fromMemory_writing
      apply Store.Overwrites.afterRead
      · apply Store.FromMemory.bind (read _)
        intro connection
        split
        · exact Store.fromMemory_ofExcept (.error _)
        · exact Store.fromMemory_ofExcept (.ok ())
      · intro checked
        exact Store.Overwrites.afterRead (Store.fromMemory_ofExcept directory) fun _ => update fault _ _
  | updateRelationship id request now fault => exact fromMemory_writing _ ((update fault _ _).ofExcept _)
  | deleteRelationship id fault => exact fromMemory_writing _ ((update fault _ _).ofExcept _)
  | updateSettings request fault =>
      apply fromMemory_writing
      apply Store.Overwrites.afterRead (Store.fromMemory_ofExcept _)
      intro checked
      exact (ConfigStore.update_overwrites format fault _).thenRead fun _ config => .ok config.settings

end ConfigCall

/-- An update that fails is forgotten when no later history of calls can tell that it was tried. -/
def Forgotten (format : ConfigFormat) (store after : ConfigStore) : Prop :=
  ∀ later : List ConfigCall,
    Store.answers (later.map (ConfigCall.run format)) after =
      Store.answers (later.map (ConfigCall.run format)) store

/-- The histories after two stores agree exactly when the configurations in memory do. -/
theorem forgotten_iff (format : ConfigFormat) (store after : ConfigStore) :
    Forgotten format store after ↔ after.memory = store.memory := by
  apply Store.answers_eq_iff (ConfigCall.run_fromMemory format) .get
  intro a b same
  have answers : (Except.ok (ConfigAnswer.config a.memory, none) :
      Except ClientError (ConfigAnswer × Option Text)) = .ok (.config b.memory, none) := same
  simpa using answers

/-- An update that fails is forgotten exactly when it asks for nothing new. -/
theorem update_failed_forgotten_iff (format : ConfigFormat) (fault : Option SaveFault)
    (change : ConfigUpdate) (store : ConfigStore) :
    (∀ error, (ConfigStore.update format fault (change.apply ·) store).1 = .error error →
        Forgotten format store (ConfigStore.update format fault (change.apply ·) store).2) ↔
      (fault = none ∨ change.Idle store.memory) := by
  rw [forgotten_iff, ← ConfigUpdate.apply_eq_self_iff]
  show (∀ error, (ConfigStore.saveInner format fault (change.apply store.memory) store.file).1 =
    .error error → change.apply store.memory = store.memory) ↔ _
  cases fault with
  | none => simp [ConfigStore.saveInner]
  | some fault => cases fault <;> simp [ConfigStore.saveInner]

def vaultConnection : RemoteConnection :=
  ⟨text "c1", text "vault", text "http://vault", .none, none, none, 0, 0⟩

def vaultFormat : ConfigFormat := ⟨text "config.yaml", fun config => config.connections.flatMap (·.name)⟩

/-- The disk is full while the only connection is deleted. -/
def vaultAfterFailure : ConfigStore :=
  (ConfigStore.update vaultFormat (some (.write (text "disk full") none))
    (ConfigUpdate.apply · (.deleteConnection (text "c1")))
    ⟨⟨[vaultConnection], [], .initial⟩, some (text "vault")⟩).2

/-- The connection whose deletion has failed is gone from the file once another update succeeds. -/
theorem failed_deletion_reaches_file :
    (ConfigStore.update vaultFormat (some (.write (text "disk full") none))
        (ConfigUpdate.apply · (.deleteConnection (text "c1")))
        ⟨⟨[vaultConnection], [], .initial⟩, some (text "vault")⟩).1 =
      .error (.configuration (text "failed to write config to config.yaml: disk full")) ∧
    ((ConfigCall.updateSettings ⟨some 30, none, none, none⟩ none).run vaultFormat vaultAfterFailure).2.file =
      some [] ∧
    ¬ Forgotten vaultFormat ⟨⟨[vaultConnection], [], .initial⟩, some (text "vault")⟩
      vaultAfterFailure := by
  refine ⟨by decide, by decide, ?_⟩
  intro forgotten
  have listed := forgotten [.listConnections]
  revert listed
  decide

namespace PreferencesStore

/-- Where a save of the preferences fails. -/
inductive Fault where
  | directory (error : Text)
  | serialize (error : Text)
  | write (error : Text) (left : Option Text)

def saveInner {π : Type} (directory path : Text) (yaml : π → Text) (fault : Option Fault) (preferences : π) :
    Proc (Option Text) ClientError Unit := fun file =>
  match fault with
  | some (.directory error) =>
      (.error (.configuration
        (text "failed to create preferences directory " ++ directory ++ text ": " ++ error)), file)
  | some (.serialize error) =>
      (.error (.configuration (text "failed to serialize preferences: " ++ error)), file)
  | some (.write error left) =>
      (.error (.configuration (text "failed to write preferences to " ++ path ++ text ": " ++ error)), left)
  | none => (.ok (), some (yaml preferences))

/-- The merge is the part of the handler that works on values only. -/
def mergePatch {π : Type} (directory path : Text) (yaml : π → Text) (fault : Option Fault)
    (merge : π → Except ClientError π) : Proc (Store π Text) ClientError π :=
  Store.saveThenCommit (saveInner directory path yaml fault) merge

/-- The preferences keep the rule that the configuration breaks. -/
theorem mergePatch_failed {π : Type} {directory path : Text} {yaml : π → Text} {fault : Option Fault}
    {merge : π → Except ClientError π} {store : Store π Text} {error : ClientError}
    (failed : (mergePatch directory path yaml fault merge store).1 = .error error) :
    (mergePatch directory path yaml fault merge store).2.memory = store.memory :=
  Store.saveThenCommit_failed failed

end PreferencesStore

end AeordbSync

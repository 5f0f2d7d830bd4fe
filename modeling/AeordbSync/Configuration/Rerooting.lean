import AeordbSync.Configuration.Atomicity
import AeordbSync.Server.Model
import AeordbSync.State.Faults
import AeordbSync.State.Memory

namespace AeordbSync
open Characters Effect Persisted StateStore SyncMetadataStore

/-- What an update of a relationship can change. -/
structure Service (σ : Type) where
  config : ConfigStore
  metadata : StateStore σ
  running : List Text

namespace Service

variable {σ α : Type}

def onConfig (call : Proc ConfigStore ClientError α) : Proc (Service σ) ClientError α :=
  Proc.zoom Service.config (fun config s => { s with config := config }) call

def onMetadata (call : Call σ α) : Proc (Service σ) ClientError α :=
  Proc.zoom Service.metadata (fun metadata s => { s with metadata := metadata }) call

end Service

namespace SyncRunner

variable {σ : Type}

def isRunning (id : Text) : Proc (Service σ) ClientError Bool := do
  let s ← Proc.get
  pure (decide (id ∈ s.running))

/-- A loop is started with what the configuration says about the relationship. -/
def start (id : Text) : Proc (Service σ) ClientError Unit := do
  let s ← Proc.get
  if id ∈ s.running then
    Proc.throw (.configuration (text "sync already running for relationship " ++ id))
  else
    match s.config.memory.relationship? id with
    | none => Proc.throw (.configuration (text "sync relationship not found: " ++ id))
    | some relationship =>
        if relationship.enabled = false then
          Proc.throw (.configuration
            (text "sync relationship '" ++ relationship.name ++ text "' is disabled"))
        else
          match s.config.memory.connection? relationship.remoteConnectionId with
          | none =>
              Proc.throw (.configuration (text "connection not found: " ++ relationship.remoteConnectionId))
          | some _ => Proc.modify fun s => { s with running := id :: s.running }

def stop (id : Text) : Proc (Service σ) ClientError Unit := do
  let s ← Proc.get
  if id ∈ s.running then Proc.modify fun s => { s with running := s.running.filter (· ≠ id) }
  else Proc.throw (.configuration (text "sync not running for relationship " ++ id))

end SyncRunner

/-- What the environment decides about an update: whether the new local directory can be used, where the
save fails, and the times. -/
structure UpdateEnvironment where
  directory : Except ClientError Unit
  fault : Option SaveFault
  now : Int
  moment : Int

section

variable {σ : Type} (engine : StateEngine σ) (format : ConfigFormat) (id : RelationshipId)
  (request : UpdateSyncRelationshipRequest) (environment : UpdateEnvironment)

/-- A relationship that pushes is migrated, another one begins anew. -/
def resetMetadata (existing updated : StoredRelationship) (moment : Int) : Call σ Unit :=
  match updated.direction with
  | .pushOnly | .bidirectional =>
      beginPathMigration engine id
        (migrationOf existing.toSyncRelationship updated.toSyncRelationship moment)
  | .pullOnly => clearRelationshipState engine id

/-- A failure of the call is only logged. -/
def logged (call : Proc (Service σ) ClientError Unit) : Proc (Service σ) ClientError Unit := do
  let _ ← Proc.attempt call
  pure ()

/-- A loop of the relationship is stopped before its roots change. -/
def stopRunning (pathsChanged : Bool) : Proc (Service σ) ClientError Bool := do
  let running ← SyncRunner.isRunning id.text
  Proc.when ((pathsChanged && running) = true) (logged (SyncRunner.stop id.text))
  pure (pathsChanged && running)

/-- What follows the update of the configuration. -/
def afterUpdate (existing : StoredRelationship) (pathsChanged wasRunning : Bool) :
    Except ClientError StoredRelationship → Proc (Service σ) ClientError StoredRelationship
  | .error error => do
      Proc.when ((wasRunning && existing.enabled) = true) (logged (SyncRunner.start id.text))
      Proc.throw error
  | .ok updated => do
      Proc.when (pathsChanged = true) do
        Service.onMetadata (resetMetadata engine id existing updated environment.moment)
        Proc.when (updated.enabled = true) (logged (SyncRunner.start id.text))
      pure updated

def updateRelationship : Proc (Service σ) ClientError StoredRelationship := do
  let known ← Service.onConfig (RelationshipManager.get id.text)
  let existing ← Proc.ofExcept (found (RelationshipManager.missing id.text) known)
  Proc.when (request.localPath.isSome = true) (Proc.ofExcept environment.directory)
  let wasRunning ← stopRunning id (existing.pathsChanged request)
  let updated ← Proc.attempt (Service.onConfig
    (RelationshipManager.update format environment.fault id.text request environment.now))
  afterUpdate engine id environment existing (existing.pathsChanged request) wasRunning updated

/-- Nothing of the relationship differs: not in the configuration and its file, not in its checkpoint, its
migration marker and its records, and not in whether a loop runs. -/
structure Unchanged (before after : Service σ) : Prop where
  relationship : after.config.memory.relationship? id.text = before.config.memory.relationship? id.text
  file : after.config.file = before.config.file
  metadata : ∀ slot : Slot, slot.owner = id →
    documents engine after.metadata.db slot = documents engine before.metadata.db slot
  running : id.text ∈ after.running ↔ id.text ∈ before.running

/-- An update that fails has not changed anything. -/
def AllOrNothing (s : Service σ) : Prop :=
  (∃ error, (updateRelationship engine format id request environment s).1 = .error error) →
    Unchanged engine id s (updateRelationship engine format id request environment s).2

/-- What a failed save leaves in the file. -/
def SaveFault.leaves (config : ClientConfig) (file : Option Text) : SaveFault → Option Text
  | .serialize _ => file
  | .write _ left => left
  | .permissions _ => some (format.yaml config)

/-- The calls of the state database with which the roots are changed all succeed. -/
def ResetAnswered (updated : StoredRelationship) (metadata : StateStore σ) : Prop :=
  match updated.direction with
  | .pushOnly | .bidirectional =>
      (beginPathMigrationFaults engine metadata.db id metadata.faults).isSome = true
  | .pullOnly => (clearRelationshipStateFaults engine metadata.db id metadata.faults).isSome = true

/-- No step after the first change fails: a save fails only where the update changes nothing, and the
calls that follow a change of the roots succeed. -/
def FailsEarly (s : Service σ) : Prop :=
  ∀ existing, s.config.memory.relationship? id.text = some existing →
    (request.localPath.isSome = true → environment.directory = .ok ()) →
    match environment.fault with
    | some fault =>
        existing.updated request environment.now = existing ∧
          fault.leaves format s.config.memory s.config.file = s.config.file
    | none => existing.pathsChanged request = true →
        ResetAnswered engine id (existing.updated request environment.now) s.metadata

section

variable {engine : StateEngine σ} {format : ConfigFormat} {id : RelationshipId}
  {request : UpdateSyncRelationshipRequest} {environment : UpdateEnvironment} {s : Service σ}
  {existing : StoredRelationship}

theorem find_replaceF {α : Type} (p : α → Bool) (change : α → α) (keeps : ∀ entry, p (change entry) = p entry)
    (entries : List α) : (entries.replaceF fun entry => if p entry then some (change entry) else none).find? p =
      (entries.find? p).map change := by
  induction entries with
  | nil => rfl
  | cons first rest ih =>
      by_cases here : p first = true
      · simp [List.replaceF, here, keeps]
      · simp [List.replaceF, here, ih]

theorem relationship?_updated (config : ClientConfig) (id : Text) (request : UpdateSyncRelationshipRequest)
    (now : Int) : ((ConfigUpdate.updateRelationship id request now).apply config).relationship? id =
      (config.relationship? id).map (StoredRelationship.updated · request now) := by
  have found := find_replaceF (fun relationship : StoredRelationship => decide (relationship.id = id))
    (StoredRelationship.updated · request now) (fun _ => rfl) config.relationships
  simpa [ConfigUpdate.apply, ClientConfig.relationship?] using found

theorem update_saved {store : ConfigStore} {id : Text} {now : Int}
    (known : store.memory.relationship? id = some existing) :
    RelationshipManager.update format none id request now store =
      (.ok (existing.updated request now),
        ⟨(ConfigUpdate.updateRelationship id request now).apply store.memory,
          some (format.yaml ((ConfigUpdate.updateRelationship id request now).apply store.memory))⟩) := by
  simp only [RelationshipManager.update, ConfigStore.updateSeeing, Proc.bind_apply, Proc.get_apply, known]
  rfl

/-- The memory keeps an update whose save has failed. -/
theorem update_failed (format : ConfigFormat) (request : UpdateSyncRelationshipRequest) (store : ConfigStore) (id : Text) (now : Int) (fault : SaveFault) :
    ∃ error, RelationshipManager.update format (some fault) id request now store =
      (.error error, ⟨(ConfigUpdate.updateRelationship id request now).apply store.memory,
        fault.leaves format ((ConfigUpdate.updateRelationship id request now).apply store.memory) store.file⟩) := by
  cases fault <;> exact ⟨_, rfl⟩

/-- A start changes nothing but the running loops. -/
theorem start_keeps (id : Text) (s : Service σ) :
    ∃ running, (SyncRunner.start id s).2 = { s with running := running } := by
  by_cases started : id ∈ s.running
  · exact ⟨s.running, by simp [SyncRunner.start, Proc.bind_apply, started]⟩
  · cases known : s.config.memory.relationship? id with
    | none => exact ⟨s.running, by simp [SyncRunner.start, Proc.bind_apply, started, known]⟩
    | some relationship =>
        by_cases disabled : relationship.enabled = false
        · exact ⟨s.running, by simp [SyncRunner.start, Proc.bind_apply, started, known, disabled]⟩
        · cases connected : s.config.memory.connection? relationship.remoteConnectionId with
          | none =>
              exact ⟨s.running, by simp [SyncRunner.start, Proc.bind_apply, started, known, disabled, connected]⟩
          | some connection =>
              exact ⟨id :: s.running,
                by simp [SyncRunner.start, Proc.bind_apply, started, known, disabled, connected]⟩

theorem logged_apply (call : Proc (Service σ) ClientError Unit) (s : Service σ) :
    logged call s = (.ok (), (call s).2) := rfl

theorem stop_keeps (id : Text) (s : Service σ) :
    ∃ running, (SyncRunner.stop id s).2 = { s with running := running } := by
  by_cases started : id ∈ s.running
  · exact ⟨s.running.filter (· ≠ id), by simp [SyncRunner.stop, Proc.bind_apply, started]⟩
  · exact ⟨s.running, by simp [SyncRunner.stop, Proc.bind_apply, started]⟩

theorem when_logged_keeps {call : Proc (Service σ) ClientError Unit}
    (keeps : ∃ running, (call s).2 = { s with running := running }) (c : Prop) [Decidable c] :
    ∃ running, Proc.when c (logged call) s = (.ok (), { s with running := running }) ∧
      (¬ c → running = s.running) := by
  obtain ⟨running, reached⟩ := keeps
  by_cases holds : c
  · exact ⟨running, by rw [Proc.when, if_pos holds, logged_apply, reached], fun other => absurd holds other⟩
  · exact ⟨s.running, by rw [Proc.when, if_neg holds, Proc.pure_apply], fun _ => rfl⟩

/-- Only a loop of a relationship whose roots change is stopped. -/
theorem stopRunning_keeps (id : RelationshipId) (pathsChanged : Bool) (s : Service σ) :
    ∃ running wasRunning, stopRunning id pathsChanged s = (.ok wasRunning, { s with running := running }) ∧
      (pathsChanged = false → running = s.running ∧ wasRunning = false) := by
  obtain ⟨running, ran, kept⟩ := when_logged_keeps (stop_keeps id.text s)
    ((pathsChanged && decide (id.text ∈ s.running)) = true)
  refine ⟨running, pathsChanged && decide (id.text ∈ s.running), ?_, ?_⟩
  · simp only [stopRunning, SyncRunner.isRunning, Proc.bind_apply, Proc.get_apply, Proc.pure_apply, ran]
  · rintro rfl
    exact ⟨kept (by simp), rfl⟩

variable (engine format) in
/-- Before it changes the configuration the handler has at most stopped the loop. -/
theorem updateRelationship_reaches (known : s.config.memory.relationship? id.text = some existing)
    (usable : request.localPath.isSome = true → environment.directory = .ok ()) :
    ∃ running wasRunning, (existing.pathsChanged request = false → running = s.running ∧ wasRunning = false) ∧
      updateRelationship engine format id request environment s =
        afterUpdate engine id environment existing (existing.pathsChanged request) wasRunning
          (RelationshipManager.update format environment.fault id.text request environment.now s.config).1
          ⟨(RelationshipManager.update format environment.fault id.text request environment.now s.config).2,
            s.metadata, running⟩ := by
  have read : (Service.onConfig (RelationshipManager.get id.text) : Proc (Service σ) ClientError _) s =
      (.ok (some existing), s) := by
    show (Except.ok (s.config.memory.relationship? id.text), s) = _
    rw [known]
  have checked : Proc.when (request.localPath.isSome = true) (Proc.ofExcept environment.directory) s =
      (.ok (), s) := by
    by_cases given : request.localPath.isSome = true
    · rw [Proc.when, if_pos given, usable given]
      rfl
    · rw [Proc.when, if_neg given, Proc.pure_apply]
  obtain ⟨running, wasRunning, stopped, unchanged⟩ := stopRunning_keeps id (existing.pathsChanged request) s
  refine ⟨running, wasRunning, unchanged, ?_⟩
  simp only [updateRelationship, Proc.bind_apply, read, found, Proc.ofExcept] at checked ⊢
  simp only [checked, stopped]
  rfl

variable (engine id environment) in
/-- After a failed save the handler fails, with the update in memory. -/
theorem afterUpdate_failed (existing : StoredRelationship) (pathsChanged wasRunning : Bool) (error : ClientError)
    (s : Service σ) : ∃ running, (wasRunning = false → running = s.running) ∧
      afterUpdate engine id environment existing pathsChanged wasRunning (.error error) s =
        (.error error, { s with running := running }) := by
  obtain ⟨running, ran, kept⟩ := when_logged_keeps (start_keeps id.text s)
    ((wasRunning && existing.enabled) = true)
  refine ⟨running, ?_, ?_⟩
  · rintro rfl
    exact kept (by simp)
  · simp only [afterUpdate, Proc.bind_apply, ran, Proc.throw_apply]

theorem resetMetadata_follows (engine : StateEngine σ) (id : RelationshipId) (existing updated : StoredRelationship) (moment : Int) (metadata : StateStore σ) :
    ∃ rest, Follows (resetMetadata engine id existing updated moment) metadata rest () (fun _ => True) ∧
      (rest.isSome = true ↔ ResetAnswered engine id updated metadata) := by
  cases direction : updated.direction with
  | pullOnly =>
      have follows := clearRelationshipState_follows engine id metadata
      exact ⟨_, by simpa [resetMetadata, direction] using follows, by simp [ResetAnswered, direction]⟩
  | pushOnly =>
      have follows := beginPathMigration_follows engine id
        (migrationOf existing.toSyncRelationship updated.toSyncRelationship moment) metadata
      exact ⟨_, by simpa [resetMetadata, direction] using follows, by simp [ResetAnswered, direction]⟩
  | bidirectional =>
      have follows := beginPathMigration_follows engine id
        (migrationOf existing.toSyncRelationship updated.toSyncRelationship moment) metadata
      exact ⟨_, by simpa [resetMetadata, direction] using follows, by simp [ResetAnswered, direction]⟩

variable (engine id environment) in
/-- After the save the handler fails exactly if a call of the reset does. -/
theorem afterUpdate_saved (existing updated : StoredRelationship) (wasRunning : Bool) (s : Service σ) :
    (afterUpdate engine id environment existing true wasRunning (.ok updated) s).2.config = s.config ∧
      ((∃ error, (afterUpdate engine id environment existing true wasRunning (.ok updated) s).1 = .error error) ↔
        ¬ ResetAnswered engine id updated s.metadata) := by
  obtain ⟨rest, follows, answered⟩ := resetMetadata_follows engine id existing updated
    environment.moment s.metadata
  rw [← answered]
  rcases reached : resetMetadata engine id existing updated environment.moment s.metadata with ⟨result, metadata⟩
  have reset : (Service.onMetadata (resetMetadata engine id existing updated environment.moment)) s =
      (result, { s with metadata := metadata }) := by
    show ((resetMetadata engine id existing updated environment.moment s.metadata).1, _) = _
    rw [reached]
  cases rest with
  | none =>
      obtain ⟨error, failed⟩ := follows
      rw [reached] at failed
      cases failed
      have ran : afterUpdate engine id environment existing true wasRunning (.ok updated) s =
          (.error error, { s with metadata := metadata }) := by
        simp only [afterUpdate, Proc.when, if_true, Proc.bind_apply, reset]
      rw [ran]
      simp
  | some later =>
      obtain ⟨db, ran, -⟩ := follows
      rw [reached] at ran
      cases ran
      obtain ⟨running, started, -⟩ := when_logged_keeps
        (start_keeps id.text { s with metadata := ⟨db, later⟩ }) (updated.enabled = true)
      have done : afterUpdate engine id environment existing true wasRunning (.ok updated) s =
          (.ok updated, { s with metadata := ⟨db, later⟩, running := running }) := by
        simp only [afterUpdate, Proc.when, if_true, Proc.bind_apply, reset] at started ⊢
        rw [started]
        rfl
      rw [done]
      simp

theorem Unchanged.refl (engine : StateEngine σ) (id : RelationshipId) (s : Service σ) : Unchanged engine id s s :=
  ⟨rfl, rfl, fun _ _ => rfl, Iff.rfl⟩

/-- An update of the roots is seen in the configuration. -/
theorem updated_ne_of_pathsChanged {now : Int} (changed : existing.pathsChanged request = true) :
    existing.updated request now ≠ existing := by
  intro same
  have settings : existing.toSyncRelationship.updated request = existing.toSyncRelationship :=
    congrArg StoredRelationship.toSyncRelationship same
  simp [SyncRelationship.pathsChanged, settings] at changed

/-- Where the update is the one that is there already, the configuration stays. -/
theorem apply_updated_self {store : ConfigStore} {id : Text} {now : Int}
    (known : store.memory.relationship? id = some existing) (same : existing.updated request now = existing) :
    (ConfigUpdate.updateRelationship id request now).apply store.memory = store.memory := by
  rw [ConfigUpdate.apply_eq_self_iff]
  intro relationship present
  rw [known, Option.some.injEq] at present
  rw [← present, same]

/-- A failure before the update of the configuration leaves everything as it is. -/
theorem allOrNothing_of_refused {error : ClientError}
    (refused : updateRelationship engine format id request environment s = (.error error, s)) :
    AllOrNothing engine format id request environment s := by
  intro _
  rw [refused]
  exact Unchanged.refl engine id s

theorem updateRelationship_unknown (unknown : s.config.memory.relationship? id.text = none) :
    updateRelationship engine format id request environment s =
      (.error (.notFound (RelationshipManager.missing id.text)), s) := by
  have read : (Service.onConfig (RelationshipManager.get id.text) : Proc (Service σ) ClientError _) s =
      (.ok none, s) := by
    show (Except.ok (s.config.memory.relationship? id.text), s) = _
    rw [unknown]
  simp only [updateRelationship, Proc.bind_apply, read, found, Proc.ofExcept]

theorem updateRelationship_unusable (known : s.config.memory.relationship? id.text = some existing)
    {error : ClientError} (given : request.localPath.isSome = true) (unusable : environment.directory = .error error) :
    updateRelationship engine format id request environment s = (.error error, s) := by
  have read : (Service.onConfig (RelationshipManager.get id.text) : Proc (Service σ) ClientError _) s =
      (.ok (some existing), s) := by
    show (Except.ok (s.config.memory.relationship? id.text), s) = _
    rw [known]
  simp only [updateRelationship, Proc.bind_apply, read, found, Proc.ofExcept, Proc.when, given, if_true, unusable]

/-- Where the save fails, nothing may depend on the update. -/
theorem allOrNothing_unsaved (known : s.config.memory.relationship? id.text = some existing)
    (usable : request.localPath.isSome = true → environment.directory = .ok ()) {fault : SaveFault}
    (faulty : environment.fault = some fault) :
    AllOrNothing engine format id request environment s ↔
      existing.updated request environment.now = existing ∧
        fault.leaves format s.config.memory s.config.file = s.config.file := by
  obtain ⟨stopped, wasRunning, still, reached⟩ :=
    updateRelationship_reaches engine format known usable
  obtain ⟨error, failed⟩ := update_failed format request s.config id.text environment.now fault
  rw [faulty, failed] at reached
  obtain ⟨running, kept, ran⟩ := afterUpdate_failed engine id environment existing (existing.pathsChanged request) wasRunning error
    ⟨⟨(ConfigUpdate.updateRelationship id.text request environment.now).apply s.config.memory,
      fault.leaves format ((ConfigUpdate.updateRelationship id.text request environment.now).apply s.config.memory)
        s.config.file⟩, s.metadata, stopped⟩
  rw [ran] at reached
  rw [AllOrNothing, reached]
  have later := relationship?_updated s.config.memory id.text request environment.now
  rw [known, Option.map_some] at later
  constructor
  · intro holds
    have outcome := holds ⟨error, rfl⟩
    have same : existing.updated request environment.now = existing := by
      have equal := outcome.relationship
      simp only at equal
      rw [later, known, Option.some.injEq] at equal
      exact equal
    have file := outcome.file
    simp only [apply_updated_self known same] at file
    exact ⟨same, file⟩
  · rintro ⟨same, file⟩ -
    have unchanged : existing.pathsChanged request = false := by
      cases changed : existing.pathsChanged request with
      | false => rfl
      | true => exact absurd same (updated_ne_of_pathsChanged changed)
    obtain ⟨first, idle⟩ := still unchanged
    simp only [apply_updated_self known same]
    refine ⟨rfl, file, fun _ _ => rfl, ?_⟩
    show id.text ∈ running ↔ id.text ∈ s.running
    rw [kept idle, first]

/-- Where the save succeeds, the reset has to succeed as well. -/
theorem allOrNothing_saved (known : s.config.memory.relationship? id.text = some existing)
    (usable : request.localPath.isSome = true → environment.directory = .ok ())
    (saved : environment.fault = none) :
    AllOrNothing engine format id request environment s ↔
      (existing.pathsChanged request = true →
        ResetAnswered engine id (existing.updated request environment.now) s.metadata) := by
  obtain ⟨stopped, wasRunning, -, reached⟩ :=
    updateRelationship_reaches engine format known usable
  rw [saved, update_saved known] at reached
  rw [AllOrNothing, reached]
  cases changed : existing.pathsChanged request with
  | false =>
      have done : ∀ after : Service σ, (afterUpdate engine id environment existing false wasRunning
          (.ok (existing.updated request environment.now)) after).1 =
            .ok (existing.updated request environment.now) := fun _ => rfl
      simp [done]
  | true =>
      obtain ⟨config, fails⟩ := afterUpdate_saved engine id environment existing (existing.updated request environment.now) wasRunning
        ⟨⟨(ConfigUpdate.updateRelationship id.text request environment.now).apply s.config.memory,
          some (format.yaml
            ((ConfigUpdate.updateRelationship id.text request environment.now).apply s.config.memory))⟩,
          s.metadata, stopped⟩
      rw [fails]
      have later := relationship?_updated s.config.memory id.text request environment.now
      rw [known, Option.map_some] at later
      constructor
      · intro holds _
        by_contra unanswered
        have equal := (holds unanswered).relationship
        rw [config] at equal
        simp only at equal
        rw [later, known, Option.some.injEq] at equal
        exact updated_ne_of_pathsChanged changed equal
      · intro answered unanswered
        exact absurd (answered rfl) unanswered

end

/-- An update that fails has changed nothing exactly if it fails before its first change. -/
theorem updateRelationship_allOrNothing_iff (s : Service σ) :
    AllOrNothing engine format id request environment s ↔
      FailsEarly engine format id request environment s := by
  cases known : s.config.memory.relationship? id.text with
  | none =>
      have refused : AllOrNothing engine format id request environment s :=
        allOrNothing_of_refused (updateRelationship_unknown known)
      refine ⟨fun _ existing present => ?_, fun _ => refused⟩
      rw [known] at present
      cases present
  | some existing =>
      by_cases usable : request.localPath.isSome = true → environment.directory = .ok ()
      · have only : FailsEarly engine format id request environment s ↔
            match environment.fault with
            | some fault =>
                existing.updated request environment.now = existing ∧
                  fault.leaves format s.config.memory s.config.file = s.config.file
            | none => existing.pathsChanged request = true →
                ResetAnswered engine id (existing.updated request environment.now) s.metadata := by
          constructor
          · exact fun early => early existing known usable
          · intro holds other present _
            rw [known, Option.some.injEq] at present
            rw [← present]
            exact holds
        rw [only]
        cases fault : environment.fault with
        | some fault => exact allOrNothing_unsaved known usable fault
        | none => exact allOrNothing_saved known usable fault
      · have refused : AllOrNothing engine format id request environment s := by
          rw [Classical.not_imp] at usable
          cases directory : environment.directory with
          | ok done => exact absurd directory usable.2
          | error error =>
              exact allOrNothing_of_refused (updateRelationship_unusable known usable.1 directory)
        refine ⟨fun _ other _ fits => absurd fits usable, fun _ => refused⟩

end

namespace RerootingSample

def id : RelationshipId := ⟨text "6f1c", RelationshipId.sample_named, RelationshipId.sample_flat⟩

def existing : StoredRelationship where
  id := text "6f1c"
  name := text "notes"
  remoteConnectionId := text "c1"
  remotePath := text "/docs/"
  localPath := text "/home/docs"
  direction := .bidirectional
  filter := none
  deletePropagation := ⟨true, true⟩
  enabled := true
  createdAt := 1700000000000
  updatedAt := 1700000000000

def request : UpdateSyncRelationshipRequest := ⟨none, none, some (text "/home/papers"), none, none, none, none⟩

def environment : UpdateEnvironment := ⟨.ok (), none, 1700000001000, 1700000001000⟩

def format : ConfigFormat := ⟨text "config.yaml", fun config => config.relationships.flatMap (·.localPath)⟩

/-- The marker of the migration cannot be stored. -/
def service : Service MemoryState where
  config := ⟨⟨[], [existing], .initial⟩, some (text "/home/docs")⟩
  metadata := ⟨∅, [none, some (text "no space left on device")]⟩
  running := []

end RerootingSample

open RerootingSample in
theorem updateRelationship_halfDone :
    ¬ AllOrNothing MemoryState.engine format RerootingSample.id request environment service := by
  intro holds
  have outcome := (holds ⟨_, rfl⟩).relationship
  have paths := congrArg (Option.map fun relationship : StoredRelationship => relationship.localPath) outcome
  revert paths
  decide

end AeordbSync

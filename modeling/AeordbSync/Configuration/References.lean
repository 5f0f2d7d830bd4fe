import AeordbSync.Library.Runs
import AeordbSync.Configuration.Store

namespace AeordbSync
open Characters Effect Persisted Runs

/-- What a manager call has still to do. The creation of a relationship reads the configuration, makes
the local directory and changes the configuration, and other calls can come between. -/
inductive ManagerCall where
  | createConnection (request : CreateConnectionRequest)
  | updateConnection (id : Text) (request : UpdateConnectionRequest)
  | deleteConnection (id : Text)
  | createRelationship (request : CreateSyncRelationshipRequest)
  | makeDirectory (request : CreateSyncRelationshipRequest)
  | storeRelationship (request : CreateSyncRelationshipRequest)
  | updateRelationship (id : Text) (request : UpdateSyncRelationshipRequest)
  | enableRelationship (id : Text)
  | disableRelationship (id : Text)
  | deleteRelationship (id : Text)

/-- The connection that a call has found and relies on. -/
def ManagerCall.checked : ManagerCall → Option Text
  | .makeDirectory request => some request.remoteConnectionId
  | .storeRelationship request => some request.remoteConnectionId
  | _ => none

/-- The configuration, and the calls in progress. -/
structure Managers where
  store : ConfigStore
  calls : Nat → Option ManagerCall

/-- The next step of a call carries what the environment decides in it. -/
inductive ManagerStep where
  | begin (token : Nat) (call : ManagerCall)
  | advance (token : Nat) (id : Text) (now : Int) (directory : Except ClientError Unit)
      (fault : Option SaveFault)

namespace Managers

def next (managers : Managers) (token : Nat) (call : Option ManagerCall) : Managers :=
  { managers with calls := Function.update managers.calls token call }

/-- A call whose last step is a procedure on the configuration. -/
def finish {ω : Type} (managers : Managers) (token : Nat) (call : Proc ConfigStore ClientError ω) : Managers :=
  { managers with store := (call managers.store).2 }.next token none

def advance (format : ConfigFormat) (managers : Managers) (token : Nat) (id : Text) (now : Int)
    (directory : Except ClientError Unit) (fault : Option SaveFault) : ManagerCall → Managers
  | .createConnection request =>
      managers.finish token (ConnectionManager.create format fault request id now)
  | .updateConnection target request =>
      managers.finish token (ConnectionManager.update format fault target request now)
  | .deleteConnection target => managers.finish token (ConnectionManager.delete format fault target)
  | .createRelationship request =>
      match (RelationshipManager.checkConnection request managers.store).1 with
      | .ok _ => managers.next token (some (.makeDirectory request))
      | .error _ => managers.next token none
  | .makeDirectory request => match directory with
      | .ok _ => managers.next token (some (.storeRelationship request))
      | .error _ => managers.next token none
  | .storeRelationship request =>
      managers.finish token (RelationshipManager.store format fault request id now)
  | .updateRelationship target request =>
      managers.finish token (RelationshipManager.update format fault target request now)
  | .enableRelationship target => managers.finish token (RelationshipManager.enable format fault target now)
  | .disableRelationship target => managers.finish token (RelationshipManager.disable format fault target now)
  | .deleteRelationship target => managers.finish token (RelationshipManager.delete format fault target)

/-- A call begins with its first step. -/
def step (format : ConfigFormat) (managers : Managers) : ManagerStep → Option Managers
  | .begin token call =>
      if (managers.calls token).isNone ∧ call.checked = none then some (managers.next token (some call))
      else none
  | .advance token id now directory fault =>
      (managers.calls token).map (managers.advance format token id now directory fault)

end Managers

namespace ClientConfig

def Stores (config : ClientConfig) (id : Text) : Prop := ∃ connection ∈ config.connections, connection.id = id

/-- Every relationship names a connection that is stored. -/
def Referenced (config : ClientConfig) : Prop :=
  ∀ relationship ∈ config.relationships, config.Stores relationship.remoteConnectionId

instance (config : ClientConfig) (id : Text) : Decidable (config.Stores id) :=
  inferInstanceAs (Decidable (∃ connection ∈ config.connections, connection.id = id))

instance (config : ClientConfig) : Decidable config.Referenced :=
  inferInstanceAs (Decidable (∀ relationship ∈ config.relationships, _))

end ClientConfig

/-- A change of the first entry that fits keeps every view that the change itself keeps. -/
theorem map_replaceF {α β : Type} (p : α → Bool) (change : α → α) (view : α → β)
    (keeps : ∀ entry, view (change entry) = view entry) (entries : List α) :
    (entries.replaceF fun entry => if p entry then some (change entry) else none).map view =
      entries.map view := by
  induction entries with
  | nil => rfl
  | cons first rest ih =>
      by_cases here : p first = true
      · simp [List.replaceF, here, keeps]
      · simp [List.replaceF, here, ih]

namespace ConfigUpdate

/-- An update stores a connection as before unless it deletes it while nothing depends on it. -/
theorem stores_apply {config : ClientConfig} {id : Text} (stored : config.Stores id)
    (change : ConfigUpdate)
    (kept : change = .deleteConnection id →
      ∃ relationship ∈ config.relationships, relationship.remoteConnectionId = id) :
    (change.apply config).Stores id := by
  obtain ⟨connection, inside, rfl⟩ := stored
  cases change with
  | createConnection other => exact ⟨connection, List.mem_append_left _ inside, rfl⟩
  | updateConnection target request now =>
      have ids := map_replaceF (fun connection => decide (connection.id = target))
        (RemoteConnection.updated · request now) RemoteConnection.id
        (fun entry => entry.updated_id request now) config.connections
      have member : connection.id ∈ config.connections.map RemoteConnection.id :=
        List.mem_map_of_mem inside
      rw [← ids, List.mem_map] at member
      simpa [apply, ClientConfig.Stores] using member
  | deleteConnection target =>
      by_cases free : config.dependants target = []
      · have differs : connection.id ≠ target := by
          intro same
          obtain ⟨relationship, used, names⟩ := kept (by rw [same])
          have dependant : relationship ∈ config.dependants target := by
            simp [ClientConfig.dependants, used, names, same]
          rw [free] at dependant
          cases dependant
        have left : connection ∈ config.connections.filter fun connection => connection.id ≠ target := by
          simp [inside, differs]
        exact ⟨connection, by simpa [apply, free] using left, rfl⟩
      · exact ⟨connection, by simpa [apply, free] using inside, rfl⟩
  | createRelationship relationship => exact ⟨connection, inside, rfl⟩
  | updateRelationship target request now => exact ⟨connection, inside, rfl⟩
  | deleteRelationship target => exact ⟨connection, inside, rfl⟩
  | updateSettings request => exact ⟨connection, inside, rfl⟩

/-- The connections that the relationships name afterwards. -/
theorem named_apply {config : ClientConfig} {change : ConfigUpdate} {relationship : StoredRelationship}
    (inside : relationship ∈ (change.apply config).relationships) :
    change = .createRelationship relationship ∨
      ∃ other ∈ config.relationships, other.remoteConnectionId = relationship.remoteConnectionId := by
  cases change with
  | createConnection connection => exact Or.inr ⟨relationship, inside, rfl⟩
  | updateConnection target request now => exact Or.inr ⟨relationship, inside, rfl⟩
  | deleteConnection target =>
      refine Or.inr ⟨relationship, ?_, rfl⟩
      by_cases free : config.dependants target = [] <;> simpa [apply, free] using inside
  | createRelationship other =>
      rcases List.mem_append.mp inside with old | new
      · exact Or.inr ⟨relationship, old, rfl⟩
      · rw [List.mem_singleton.mp new]
        exact Or.inl rfl
  | updateRelationship target request now =>
      have names := map_replaceF (fun relationship => decide (relationship.id = target))
        (StoredRelationship.updated · request now) (fun relationship => relationship.remoteConnectionId)
        (fun entry => rfl) config.relationships
      have member : relationship.remoteConnectionId ∈
          config.relationships.map fun relationship => relationship.remoteConnectionId := by
        rw [← names]
        exact List.mem_map_of_mem (by simpa [apply] using inside)
      obtain ⟨other, old, same⟩ := List.mem_map.mp member
      exact Or.inr ⟨other, old, same⟩
  | deleteRelationship target =>
      have old : relationship ∈ config.relationships := (List.mem_filter.mp inside).1
      exact Or.inr ⟨relationship, old, rfl⟩
  | updateSettings request => exact Or.inr ⟨relationship, inside, rfl⟩

/-- Deleting a connection is safe by itself, and so is every update that adds no relationship. -/
theorem referenced_apply {config : ClientConfig} (referenced : config.Referenced) (change : ConfigUpdate)
    (found : ∀ relationship, change = .createRelationship relationship →
      config.Stores relationship.remoteConnectionId) :
    (change.apply config).Referenced := by
  intro relationship inside
  rcases named_apply inside with created | ⟨other, old, same⟩
  · apply stores_apply (found relationship created)
    intro deletes
    rw [created] at deletes
    cases deletes
  · rw [← same]
    apply stores_apply (referenced other old)
    intro deletes
    exact ⟨other, old, rfl⟩

end ConfigUpdate

namespace ConfigStore

/-- An update changes the configuration in memory whether or not the save succeeds. -/
theorem updateSeeing_memory {ω : Type} (format : ConfigFormat) (fault : Option SaveFault)
    (change : ConfigUpdate) (seen : ClientConfig → ω) (store : ConfigStore) :
    (updateSeeing format fault change seen store).2.memory = change.apply store.memory := by
  cases fault with
  | none => rfl
  | some fault => cases fault <;> rfl

theorem reported_memory {ω ρ : Type} (format : ConfigFormat) (fault : Option SaveFault)
    (change : ConfigUpdate) (seen : ClientConfig → ω) (answer : ω → Except ClientError ρ)
    (store : ConfigStore) :
    ((do let a ← updateSeeing format fault change seen; Proc.ofExcept (answer a) :
      Proc ConfigStore ClientError ρ) store).2.memory = change.apply store.memory := by
  cases fault with
  | none => rfl
  | some fault => cases fault <;> rfl

end ConfigStore

/-- The update that the next step of a call makes. -/
def ManagerCall.change (id : Text) (now : Int) : ManagerCall → Option ConfigUpdate
  | .createConnection request => some (.createConnection (request.connection id now))
  | .updateConnection target request => some (.updateConnection target request now)
  | .deleteConnection target => some (.deleteConnection target)
  | .createRelationship _ => none
  | .makeDirectory _ => none
  | .storeRelationship request => some (.createRelationship (request.relationship id now))
  | .updateRelationship target request => some (.updateRelationship target request now)
  | .enableRelationship target => some (.updateRelationship target (enabledRequest true) now)
  | .disableRelationship target => some (.updateRelationship target (enabledRequest false) now)
  | .deleteRelationship target => some (.deleteRelationship target)

theorem change_creates {call : ManagerCall} {id : Text} {now : Int} {change : ConfigUpdate}
    {relationship : StoredRelationship} (changes : call.change id now = some change)
    (created : change = .createRelationship relationship) :
    ∃ request, call = .storeRelationship request ∧
      relationship.remoteConnectionId = request.remoteConnectionId := by
  subst created
  cases call with
  | storeRelationship request =>
      refine ⟨request, rfl, ?_⟩
      simp only [ManagerCall.change, Option.some.injEq, ConfigUpdate.createRelationship.injEq] at changes
      rw [← changes]
      rfl
  | _ => simp [ManagerCall.change] at changes

theorem change_deletes {call : ManagerCall} {id : Text} {now : Int} {change : ConfigUpdate}
    {connection : Text} (changes : call.change id now = some change)
    (deletes : change = .deleteConnection connection) : call = .deleteConnection connection := by
  subst deletes
  cases call with
  | deleteConnection target => simpa [ManagerCall.change] using changes
  | _ => simp [ManagerCall.change] at changes

namespace Managers

section

variable (format : ConfigFormat) (managers : Managers) (token : Nat) (id : Text) (now : Int)
  (directory : Except ClientError Unit) (fault : Option SaveFault)

theorem advance_memory (call : ManagerCall) :
    (managers.advance format token id now directory fault call).store.memory =
      match call.change id now with
      | some change => change.apply managers.store.memory
      | none => managers.store.memory := by
  cases call with
  | createConnection request => exact ConfigStore.updateSeeing_memory format fault _ _ managers.store
  | updateConnection target request => exact ConfigStore.reported_memory format fault _ _ _ managers.store
  | deleteConnection target => exact ConfigStore.reported_memory format fault _ _ _ managers.store
  | createRelationship request =>
      simp only [advance]
      split <;> rfl
  | makeDirectory request =>
      simp only [advance]
      split <;> rfl
  | storeRelationship request => exact ConfigStore.updateSeeing_memory format fault _ _ managers.store
  | updateRelationship target request => exact ConfigStore.reported_memory format fault _ _ _ managers.store
  | enableRelationship target => exact ConfigStore.reported_memory format fault _ _ _ managers.store
  | disableRelationship target => exact ConfigStore.reported_memory format fault _ _ _ managers.store
  | deleteRelationship target => exact ConfigStore.reported_memory format fault _ _ _ managers.store

/-- A step changes its own call only. What a call has checked is stored, or was checked before. -/
theorem advance_calls (call : ManagerCall) :
    ∃ later, (managers.advance format token id now directory fault call).calls =
        Function.update managers.calls token later ∧
      ∀ connection, later.bind ManagerCall.checked = some connection →
        call.change id now = none ∧
          (call.checked = some connection ∨ managers.store.memory.Stores connection) := by
  cases call with
  | createRelationship request =>
      cases found : managers.store.memory.connection? request.remoteConnectionId with
      | none =>
          refine ⟨none, ?_, by simp⟩
          simp [advance, RelationshipManager.checkConnection, ConnectionManager.get, ConfigStore.get,
            Proc.bind_apply, found, next]
      | some connection =>
          refine ⟨some (.makeDirectory request), ?_, ?_⟩
          · simp [advance, RelationshipManager.checkConnection, ConnectionManager.get, ConfigStore.get,
              Proc.bind_apply, found, next]
          · intro checked same
            have named : request.remoteConnectionId = checked := by simpa [ManagerCall.checked] using same
            refine ⟨rfl, Or.inr ⟨connection, List.mem_of_find?_eq_some found, ?_⟩⟩
            rw [← named]
            simpa using List.find?_some found
  | makeDirectory request =>
      cases directory with
      | error error => exact ⟨none, rfl, by simp⟩
      | ok made =>
          refine ⟨some (.storeRelationship request), rfl, ?_⟩
          intro connection same
          exact ⟨rfl, Or.inl same⟩
  | createConnection request => exact ⟨none, rfl, by simp⟩
  | updateConnection target request => exact ⟨none, rfl, by simp⟩
  | deleteConnection target => exact ⟨none, rfl, by simp⟩
  | storeRelationship request => exact ⟨none, rfl, by simp⟩
  | updateRelationship target request => exact ⟨none, rfl, by simp⟩
  | enableRelationship target => exact ⟨none, rfl, by simp⟩
  | disableRelationship target => exact ⟨none, rfl, by simp⟩
  | deleteRelationship target => exact ⟨none, rfl, by simp⟩

end

/-- The connections that the calls in progress have found are still stored. -/
structure Sound (managers : Managers) : Prop where
  referenced : managers.store.memory.Referenced
  checked : ∀ token call connection, managers.calls token = some call →
    call.checked = some connection → managers.store.memory.Stores connection

/-- A deletion is refused while something depends on the connection. Otherwise no call in progress may
rely on the connection. -/
def Spares (managers : Managers) : ManagerStep → Prop
  | .advance token _ _ _ _ => ∀ target, managers.calls token = some (.deleteConnection target) →
      (∃ relationship ∈ managers.store.memory.relationships, relationship.remoteConnectionId = target) ∨
        ∀ other call, managers.calls other = some call → call.checked ≠ some target
  | .begin _ _ => True

theorem sound_step {format : ConfigFormat} {managers next : Managers} {action : ManagerStep} (sound : managers.Sound)
    (spares : managers.Spares action) (taken : managers.step format action = some next) : next.Sound := by
  cases action with
  | begin token call =>
      simp only [step, Option.ite_none_right_eq_some, Option.some.injEq] at taken
      obtain ⟨⟨_, unchecked⟩, rfl⟩ := taken
      refine ⟨sound.referenced, ?_⟩
      intro other pending connection here relies
      by_cases same : other = token
      · subst same
        have begun : call = pending := by simpa [Managers.next] using here
        rw [← begun, unchecked] at relies
        cases relies
      · exact sound.checked other pending connection (by simpa [Managers.next, same] using here) relies
  | advance token id now directory fault =>
      obtain ⟨call, pending, rfl⟩ := Option.map_eq_some_iff.mp taken
      obtain ⟨later, calls, fresh⟩ := advance_calls format managers token id now directory fault call
      have memory := advance_memory format managers token id now directory fault call
      have older : ∀ other pendingOther connection, other ≠ token →
          Function.update managers.calls token later other = some pendingOther →
          pendingOther.checked = some connection → managers.store.memory.Stores connection := by
        intro other pendingOther connection different here
        rw [Function.update_of_ne different] at here
        exact sound.checked other pendingOther connection here
      cases changes : call.change id now with
      | none =>
          rw [changes] at memory
          refine ⟨by rw [memory]; exact sound.referenced, ?_⟩
          intro other pendingOther connection here relies
          rw [memory]
          rw [calls] at here
          by_cases same : other = token
          · rw [same, Function.update_self] at here
            rcases (fresh connection (by rw [here]; exact relies)).2 with before | stored
            · exact sound.checked token call connection pending before
            · exact stored
          · exact older other pendingOther connection same here relies
      | some change =>
          rw [changes] at memory
          constructor
          · rw [memory]
            apply ConfigUpdate.referenced_apply sound.referenced
            intro relationship created
            obtain ⟨request, rfl, named⟩ := change_creates changes created
            rw [named]
            exact sound.checked token _ _ pending rfl
          · intro other pendingOther connection here relies
            rw [memory]
            rw [calls] at here
            by_cases same : other = token
            · rw [same, Function.update_self] at here
              have unchanged := (fresh connection (by rw [here]; exact relies)).1
              rw [changes] at unchanged
              cases unchanged
            · apply ConfigUpdate.stores_apply (older other pendingOther connection same here relies)
              intro deletes
              have deleting := change_deletes changes deletes
              rcases spares connection (by rw [pending, deleting]) with used | spared
              · exact used
              · rw [Function.update_of_ne same] at here
                exact absurd relies (spared other pendingOther here)

/-- In every run in which no connection is deleted between the check and the end of a creation that has
found it, every relationship names a stored connection. -/
theorem references_kept {format : ConfigFormat} {first last : Managers} {actions : List ManagerStep}
    (run : Run (step format) Spares first actions last) (quiet : ∀ token, first.calls token = none)
    (referenced : first.store.memory.Referenced) : last.store.memory.Referenced := by
  have sound : last.Sound := by
    apply run.invariant fun _ _ _ sound spares taken => sound_step sound spares taken
    refine ⟨referenced, ?_⟩
    intro token call connection pending
    rw [quiet token] at pending
    cases pending
  exact sound.referenced

def vaultRequest : CreateSyncRelationshipRequest :=
  ⟨text "notes", text "c1", text "/notes/", text "/home/u/notes", .bidirectional, none, none⟩

def vaultConfig : ClientConfig :=
  ⟨[⟨text "c1", text "vault", text "http://vault", .none, none, none, 0, 0⟩], [], .initial⟩

def vaultManagers : Managers := ⟨⟨vaultConfig, none⟩, fun _ => none⟩

def plainFormat : ConfigFormat := ⟨text "config.yaml", fun _ => []⟩

def onward (token : Nat) : ManagerStep := .advance token (text "r1") 0 (.ok ()) none

/-- The connection is deleted after a creation has found it and before it stores the relationship. -/
def crossedSteps : List ManagerStep :=
  [.begin 0 (.createRelationship vaultRequest), onward 0, .begin 1 (.deleteConnection (text "c1")),
    onward 1, onward 0, onward 0]

/-- The creation runs to its end before the deletion, which is then refused. -/
theorem references_kept_vault :
    vaultManagers.store.memory.Referenced ∧
      ∃ last, Run (step plainFormat) Spares vaultManagers
          [.begin 0 (.createRelationship vaultRequest), onward 0, onward 0, onward 0,
            .begin 1 (.deleteConnection (text "c1")), onward 1] last ∧
        last.store.memory.relationships ≠ [] ∧ last.store.memory.Referenced := by
  have referenced : vaultManagers.store.memory.Referenced := by decide
  have ran : ∃ last, Run (step plainFormat) Spares vaultManagers
      [.begin 0 (.createRelationship vaultRequest), onward 0, onward 0, onward 0,
        .begin 1 (.deleteConnection (text "c1")), onward 1] last ∧
      last.store.memory.relationships ≠ [] := by
    apply Exists.intro
    apply And.intro
    · apply Run.cons rfl trivial
      apply Run.cons rfl (fun target deleting => by cases deleting)
      apply Run.cons rfl (fun target deleting => by cases deleting)
      apply Run.cons rfl (fun target deleting => by cases deleting)
      apply Run.cons rfl trivial
      refine Run.cons rfl ?_ (.nil _)
      intro target deleting
      left
      cases deleting
      decide
    · decide
  obtain ⟨last, run, some⟩ := ran
  exact ⟨referenced, last, run, some, references_kept run (fun _ => rfl) referenced⟩

/-- The connection is deleted between the two steps of the creation. -/
theorem references_broken :
    vaultManagers.store.memory.Referenced ∧ (∀ token, vaultManagers.calls token = none) ∧
      ∃ last, Run (step plainFormat) (fun _ _ => True) vaultManagers crossedSteps last ∧
        ¬ last.store.memory.Referenced := by
  refine ⟨by decide, fun _ => rfl, _, run_of_after rfl, ?_⟩
  decide

end Managers

end AeordbSync

import AeordbSync.Server.Settings

namespace AeordbSync
open Characters OsPath

/-- A copy of a relationship, with the number of changes of its settings that it has seen. -/
structure Captured where
  relationship : SyncRelationship
  version : Nat
  deriving DecidableEq

abbrev Captured.id (source : Captured) : Text := source.relationship.id

inductive SyncKind where
  | push
  | pull
  | full
  deriving DecidableEq

/-- A loop waits for an event, for the execution guard, or for the sync that it has started. -/
inductive LoopPhase where
  | idle
  | queued (kind : SyncKind) (source : Captured)
  | syncing (kind : SyncKind) (source : Captured)
  deriving DecidableEq

structure SyncLoop where
  source : Captured
  phase : LoopPhase
  aborted : Bool
  deriving DecidableEq

abbrev SyncLoop.id (loop : SyncLoop) : Text := loop.source.id

/-- The writes that follow a change of the roots, in their order. -/
inductive ResetWrite where
  | clearCheckpoint
  | storeMigration
  | clearMigration
  | clearFiles
  deriving DecidableEq

/-- What a request has still to do. Every operation is one step that others can come between. -/
inductive Operation where
  | inspect (id : Text) (request : UpdateSyncRelationshipRequest)
  | probe (id : Text) (request : UpdateSyncRelationshipRequest) (existing : SyncRelationship)
  | persist (id : Text) (request : UpdateSyncRelationshipRequest) (existing : SyncRelationship)
      (wasRunning : Bool)
  | reset (existing : SyncRelationship) (updated : Captured) (writes : List ResetWrite)
  | setEnabled (id : Text) (enabled : Bool)
  | remove (id : Text)
  | settle (id : Text) (version : Nat)
  | start (id : Text)
  | spawn (source : Captured)
  | stop (id : Text)
  | abort (handle : Nat)
  | await (handle : Nat) (locked : Bool)
  | drain
  | startEnabled
  | load (id : Text) (force : Bool)
  | tryGuard (source : Captured) (force : Bool)
  | prepare (source : Captured) (force : Bool)
  | call (source : Captured)
  | syncing (source : Captured)
  deriving DecidableEq

/-- A sync that has begun, with the version that completed requests had settled by then. -/
structure SyncStart where
  kind : SyncKind
  source : Captured
  settled : Nat
  deriving DecidableEq

/-- The state database of one relationship. Every entry carries the copy of the relationship under
which it was written. -/
structure SyncStore where
  files : List (Text × Captured)
  checkpoint : Option Captured
  migration : Option SyncPathMigration
  deriving DecidableEq

/-- The fields after the state databases only observe: how often the settings of a relationship have
changed and what they were, the last version of a completed request, the copy that the last change of
the roots has saved, and the syncs that have begun. -/
structure Server where
  config : Config
  connections : List Text
  running : List (Text × Nat)
  loops : Nat → Option SyncLoop
  nextHandle : Nat
  lock : Option Nat
  guards : Text → Bool
  requests : Nat → List Operation
  stores : Text → SyncStore
  versions : Text → Nat
  history : Text → Nat → Option SyncRelationship
  settled : Text → Nat
  rooted : Text → Option Captured
  starts : List SyncStart

inductive Worker where
  | loop (handle : Nat)
  | request (token : Nat)
  deriving DecidableEq

/-- The steps of the handlers, of the loops, of the syncs and of the runtime. -/
inductive Action where
  | receive (token : Nat) (operation : Operation)
  | advance (token : Nat) (fails : Bool) (moment : Int)
  | timeOut (token : Nat)
  | fileEvent (handle : Nat) (filename : Text) (deleted : Bool)
  | remoteEvent (handle : Nat)
  | tick (handle : Nat)
  | begin (handle : Nat)
  | drop (handle : Nat)
  | record (worker : Worker) (path : Text)
  | saveCheckpoint (worker : Worker)
  | finishMigration (worker : Worker)
  | finish (worker : Worker)
  deriving DecidableEq

/-- The operations with which the handlers begin. -/
def Operation.isRequest : Operation → Bool
  | .inspect .. | .setEnabled .. | .remove .. | .start .. | .stop .. | .drain | .startEnabled | .load .. => true
  | _ => false

namespace Server

def isRunning (σ : Server) (id : Text) : Bool := (σ.running.lookup id).isSome

def next (σ : Server) (token : Nat) (operations : List Operation) : Server :=
  { σ with requests := Function.update σ.requests token operations }

def setLoop (σ : Server) (handle : Nat) (loop : Option SyncLoop) : Server :=
  { σ with loops := Function.update σ.loops handle loop }

def inPhase (σ : Server) (handle : Nat) (loop : SyncLoop) (phase : LoopPhase) : Server :=
  σ.setLoop handle (some { loop with phase := phase })

/-- The runtime drops an aborted task when it next yields. -/
def aborted (σ : Server) (handle : Nat) : Server :=
  σ.setLoop handle ((σ.loops handle).map fun loop => { loop with aborted := true })

def unlocked (σ : Server) (locked : Bool) : Server := if locked then { σ with lock := none } else σ

def withGuard (σ : Server) (id : Text) (held : Bool) : Server :=
  { σ with guards := Function.update σ.guards id held }

def setStore (σ : Server) (id : Text) (store : SyncStore) : Server :=
  { σ with stores := Function.update σ.stores id store }

def settingsAt (config : Config) (id : Text) : Option SyncRelationship :=
  (config.get id).map SyncRelationship.settings

/-- A change counts when a sync would notice it. -/
def versionAfter (σ : Server) (id : Text) (request : UpdateSyncRelationshipRequest) : Nat :=
  if settingsAt (σ.config.update id request) id = settingsAt σ.config id then σ.versions id
  else σ.versions id + 1

def recorded (σ : Server) (id : Text) (config : Config) (version : Nat) : Server :=
  { σ with
    config := config
    versions := Function.update σ.versions id version
    history := Function.update σ.history id
      (Function.update (σ.history id) version (settingsAt config id)) }

def saved (σ : Server) (id : Text) (request : UpdateSyncRelationshipRequest) : Server :=
  σ.recorded id (σ.config.update id request) (σ.versionAfter id request)

def removed (σ : Server) (id : Text) : Server :=
  σ.recorded id (σ.config.delete id) (σ.versions id + 1)

def rootedAt (σ : Server) (id : Text) : Server :=
  { σ with rooted := Function.update σ.rooted id ((σ.config.get id).map fun updated => ⟨updated, σ.versions id⟩) }

/-- An update may change the roots although its handler has read others, and the other way round. -/
def updatedBy (σ : Server) (id : Text) (request : UpdateSyncRelationshipRequest) : Server :=
  if (σ.config.get id).any (SyncRelationship.pathsChanged · request) then (σ.saved id request).rootedAt id
  else σ.saved id request

def settledAt (σ : Server) (id : Text) (version : Nat) : Server :=
  { σ with settled := Function.update σ.settled id (max (σ.settled id) version) }

def spawned (σ : Server) (source : Captured) : Server :=
  { σ with
    running := (source.id, σ.nextHandle) :: σ.running
    loops := Function.update σ.loops σ.nextHandle (some ⟨source, .queued .full source, false⟩)
    nextHandle := σ.nextHandle + 1
    lock := none }

def started (σ : Server) (kind : SyncKind) (source : Captured) : Server :=
  { σ with starts := ⟨kind, source, σ.settled source.id⟩ :: σ.starts }

/-- The copy that a sync in progress works with. -/
def inSync (σ : Server) : Worker → Option (SyncKind × Captured)
  | .loop handle => match σ.loops handle with
    | some ⟨_, .syncing kind source, _⟩ => some (kind, source)
    | _ => none
  | .request token => match σ.requests token with
    | .syncing source :: _ => some (.full, source)
    | _ => none

end Server

def inspected (id : Text) (request : UpdateSyncRelationshipRequest) (existing : SyncRelationship) : Operation :=
  if existing.pathsChanged request then .probe id request existing
  else .persist id request existing false

def resetWrites (updated : SyncRelationship) : List ResetWrite :=
  if updated.direction.canPush then [.clearCheckpoint, .storeMigration]
  else [.clearCheckpoint, .clearMigration, .clearFiles]

def migrationOf (existing updated : SyncRelationship) (moment : Int) : SyncPathMigration :=
  ⟨updated.id, existing.remotePath, updated.remotePath, existing.localPath, updated.localPath, moment⟩

def SyncStore.afterWrite (store : SyncStore) (existing updated : SyncRelationship) (moment : Int) :
    ResetWrite → SyncStore
  | .clearCheckpoint => { store with checkpoint := none }
  | .storeMigration => { store with migration := some (migrationOf existing updated moment) }
  | .clearMigration => { store with migration := none }
  | .clearFiles => { store with files := [] }

/-- The relationship that a start may begin with. -/
def startable (σ : Server) (id : Text) : Option Captured :=
  match σ.config.get id with
  | none => none
  | some relationship =>
      if relationship.enabled = true ∧ relationship.remoteConnectionId ∈ σ.connections then
        some ⟨relationship, σ.versions id⟩
      else none

def afterSave (σ : Server) (id : Text) (existing : SyncRelationship) (pathsChanged : Bool) :
    List Operation :=
  match σ.config.get id with
  | none => []
  | some updated =>
      if pathsChanged then [.reset existing ⟨updated, σ.versions id⟩ (resetWrites updated)]
      else [.settle id (σ.versions id)]

def afterReset (updated : Captured) : List Operation :=
  (if updated.relationship.enabled then [.start updated.id] else []) ++
    [.settle updated.id updated.version]

/-- One operation of a request. The flag says whether the part that can fail has failed. -/
def operate (σ : Server) (token : Nat) (rest : List Operation) (fails : Bool) (moment : Int) :
    Operation → Option Server
  | .inspect id request => match fails, σ.config.get id with
      | false, some existing => some (σ.next token (inspected id request existing :: rest))
      | _, _ => some (σ.next token rest)
  | .probe id request existing =>
      if σ.lock ≠ none then none
      else if σ.isRunning id then
        some (σ.next token (.stop id :: .persist id request existing true :: rest))
      else some (σ.next token (.persist id request existing false :: rest))
  | .persist id request existing wasRunning =>
      if fails = true ∨ σ.config.get id = none then
        some (σ.next token ((if wasRunning && existing.enabled then [.start id] else []) ++ rest))
      else
        let written := σ.updatedBy id request
        some (written.next token (afterSave written id existing (existing.pathsChanged request) ++ rest))
  | .reset existing updated writes => match writes with
      | [] => some (σ.next token (afterReset updated ++ rest))
      | write :: later =>
          if fails then some (σ.next token (.settle updated.id updated.version :: rest))
          else some ((σ.setStore updated.id
            ((σ.stores updated.id).afterWrite existing updated.relationship moment write)).next token
              (.reset existing updated later :: rest))
  | .setEnabled id enabled =>
      if fails = true ∨ σ.config.get id = none then some (σ.next token rest)
      else
        let written := σ.saved id (enabledRequest enabled)
        some (written.next token
          ((if enabled then .start id else .stop id) :: .settle id (written.versions id) :: rest))
  | .remove id =>
      if fails = true ∨ σ.config.get id = none then some (σ.next token rest)
      else some ((σ.removed id).next token (.settle id (σ.versions id + 1) :: rest))
  | .settle id version => some ((σ.settledAt id version).next token rest)
  | .start id =>
      if σ.lock ≠ none then none
      else if fails = true ∨ σ.isRunning id then some (σ.next token rest)
      else match startable σ id with
        | none => some (σ.next token rest)
        | some source => some ({ σ with lock := some token }.next token (.spawn source :: rest))
  | .spawn source => some ((σ.spawned source).next token rest)
  | .stop id =>
      if σ.lock ≠ none then none
      else match σ.running.lookup id with
        | none => some (σ.next token rest)
        | some handle => some (({ σ with
            running := σ.running.filter fun entry => entry.1 ≠ id
            lock := some token }.aborted handle).next token (.await handle true :: rest))
  | .abort handle => some ((σ.aborted handle).next token (.await handle false :: rest))
  | .await handle locked =>
      if σ.loops handle = none then some ((σ.unlocked locked).next token rest) else none
  | .drain =>
      if σ.lock ≠ none then none
      else
        let aborts := σ.running.map fun entry => Operation.abort entry.2
        some ({ σ with running := [] }.next token (aborts ++ rest))
  | .startEnabled =>
      if fails then some (σ.next token rest)
      else
        let enabled := σ.config.list.filter SyncRelationship.enabled
        some (σ.next token ((enabled.map fun relationship => Operation.start relationship.id) ++ rest))
  | .load id force => match fails, σ.config.get id with
      | false, some relationship =>
          if relationship.enabled then
            some (σ.next token (.tryGuard ⟨relationship, σ.versions id⟩ force :: rest))
          else some (σ.next token rest)
      | _, _ => some (σ.next token rest)
  | .tryGuard source force =>
      if σ.guards source.id then some (σ.next token rest)
      else some ((σ.withGuard source.id true).next token (.prepare source force :: rest))
  | .prepare source force =>
      if fails = true ∨ source.relationship.remoteConnectionId ∉ σ.connections then
        some ((σ.withGuard source.id false).next token rest)
      else if force then
        some ((σ.setStore source.id { σ.stores source.id with checkpoint := none }).next token
          (.call source :: rest))
      else some (σ.next token (.call source :: rest))
  | .call source => some ((σ.started .full source).next token (.syncing source :: rest))
  | .syncing _ => none

/-- An aborted task that still runs takes no notice of the abort before it yields. -/
def step (globMatch : Text → Text → Bool) (σ : Server) : Action → Option Server
  | .receive token operation =>
      if σ.requests token = [] ∧ operation.isRequest = true then some (σ.next token [operation]) else none
  | .advance token fails moment => match σ.requests token with
      | [] => none
      | operation :: rest => operate σ token rest fails moment operation
  | .timeOut token => match σ.requests token with
      | .await _ locked :: rest => some ((σ.unlocked locked).next token rest)
      | _ => none
  | .fileEvent handle filename deleted => match σ.loops handle with
      | some loop =>
          if loop.phase = .idle ∧ loop.source.relationship.direction.canPush = true ∧
              matchesFilter globMatch filename loop.source.relationship.filter = true ∧
              (deleted = true → loop.source.relationship.deletePropagation.localToRemote = true) then
            some (σ.inPhase handle loop (.queued .push loop.source))
          else none
      | none => none
  | .remoteEvent handle => match σ.loops handle with
      | some loop =>
          if loop.phase = .idle ∧ loop.source.relationship.direction.canPull = true then
            some (σ.inPhase handle loop (.queued .pull loop.source))
          else none
      | none => none
  | .tick handle => match σ.loops handle with
      | some loop =>
          if loop.phase ≠ .idle then none
          else match σ.config.get loop.id with
            | some relationship =>
                if relationship.enabled then
                  if relationship.remoteConnectionId ∈ σ.connections then
                    some (σ.inPhase handle loop (.queued .full ⟨relationship, σ.versions loop.id⟩))
                  else some σ
                else some (σ.setLoop handle none)
            | none => some (σ.setLoop handle none)
      | none => none
  | .begin handle => match σ.loops handle with
      | some loop => match loop.phase with
        | .queued kind source =>
            if σ.guards source.id then none
            else some (((σ.withGuard source.id true).started kind source).inPhase handle loop
              (.syncing kind source))
        | _ => none
      | none => none
  | .drop handle => match σ.loops handle with
      | some loop =>
          if loop.aborted then
            match loop.phase with
            | .syncing _ source => some ((σ.withGuard source.id false).setLoop handle none)
            | _ => some (σ.setLoop handle none)
          else none
      | none => none
  | .record worker path => match σ.inSync worker with
      | some (_, source) => some (σ.setStore source.id { σ.stores source.id with
          files := (path, source) :: (σ.stores source.id).files })
      | none => none
  | .saveCheckpoint worker => match σ.inSync worker with
      | some (kind, source) =>
          if kind ≠ .push ∧ source.relationship.direction.canPull = true then
            some (σ.setStore source.id { σ.stores source.id with checkpoint := some source })
          else none
      | none => none
  | .finishMigration worker => match σ.inSync worker with
      | some (kind, source) =>
          if kind ≠ .pull ∧ source.relationship.direction.canPush = true then
            some (σ.setStore source.id { σ.stores source.id with migration := none })
          else none
      | none => none
  | .finish worker => match worker with
      | .loop handle => match σ.loops handle with
        | some loop => match loop.phase with
          | .syncing _ source => some ((σ.withGuard source.id false).inPhase handle loop .idle)
          | _ => none
        | none => none
      | .request token => match σ.requests token with
        | .syncing source :: rest => some ((σ.withGuard source.id false).next token rest)
        | _ => none

/-- What a step can do. -/
inductive Stepped (σ : Server) : Action → Server → Prop
  | received {token : Nat} {operation : Operation} (empty : σ.requests token = [])
      (request : operation.isRequest = true) :
      Stepped σ (.receive token operation) (σ.next token [operation])
  | operated {token : Nat} {fails : Bool} {moment : Int} {operation : Operation} {rest : List Operation}
      {after : Server} (here : σ.requests token = operation :: rest)
      (taken : operate σ token rest fails moment operation = some after) :
      Stepped σ (.advance token fails moment) after
  | timedOut {token handle : Nat} {locked : Bool} {rest : List Operation}
      (here : σ.requests token = .await handle locked :: rest) :
      Stepped σ (.timeOut token) ((σ.unlocked locked).next token rest)
  | queued {action : Action} {handle : Nat} {loop : SyncLoop} {kind : SyncKind} {source : Captured}
      (found : σ.loops handle = some loop) (idle : loop.phase = .idle)
      (origin : source = loop.source ∨ ∃ relationship, σ.config.get loop.id = some relationship ∧
        relationship.enabled = true ∧ source = ⟨relationship, σ.versions loop.id⟩) :
      Stepped σ action (σ.inPhase handle loop (.queued kind source))
  | left {handle : Nat} {loop : SyncLoop} (found : σ.loops handle = some loop)
      (gone : ∀ relationship, σ.config.get loop.id = some relationship → relationship.enabled = false) :
      Stepped σ (.tick handle) (σ.setLoop handle none)
  | skipped {handle : Nat} : Stepped σ (.tick handle) σ
  | begun {handle : Nat} {loop : SyncLoop} {kind : SyncKind} {source : Captured}
      (found : σ.loops handle = some loop) (phase : loop.phase = .queued kind source) :
      Stepped σ (.begin handle)
        (((σ.withGuard source.id true).started kind source).inPhase handle loop (.syncing kind source))
  | dropped {handle : Nat} {loop : SyncLoop} (guards : Text → Bool)
      (found : σ.loops handle = some loop) (aborted : loop.aborted = true) :
      Stepped σ (.drop handle) ({ σ with guards := guards }.setLoop handle none)
  | wrote {action : Action} {worker : Worker} {kind : SyncKind} {source : Captured} {store : SyncStore}
      (inSync : σ.inSync worker = some (kind, source))
      (checkpoint : store.checkpoint = (σ.stores source.id).checkpoint ∨ store.checkpoint = some source)
      (files : ∀ entry ∈ store.files, entry ∈ (σ.stores source.id).files ∨ entry.2 = source)
      (migration : store.migration = (σ.stores source.id).migration ∨ action = .finishMigration worker) :
      Stepped σ action (σ.setStore source.id store)
  | finishedLoop {handle : Nat} {loop : SyncLoop} (guards : Text → Bool)
      (found : σ.loops handle = some loop) :
      Stepped σ (.finish (.loop handle)) ({ σ with guards := guards }.inPhase handle loop .idle)
  | finishedRequest {token : Nat} {source : Captured} {rest : List Operation} (guards : Text → Bool)
      (here : σ.requests token = .syncing source :: rest) :
      Stepped σ (.finish (.request token)) ({ σ with guards := guards }.next token rest)

theorem stepped {globMatch : Text → Text → Bool} {σ after : Server} {action : Action}
    (taken : step globMatch σ action = some after) : Stepped σ action after := by
  cases action with
  | receive token operation =>
      simp only [step] at taken
      split at taken
      next fits =>
        cases taken
        exact .received fits.1 fits.2
      · cases taken
  | advance token fails moment =>
      simp only [step] at taken
      split at taken
      · cases taken
      next operation rest here => exact .operated here taken
  | timeOut token =>
      simp only [step] at taken
      split at taken
      next handle locked rest here =>
        cases taken
        exact .timedOut here
      · cases taken
  | fileEvent handle filename deleted =>
      simp only [step] at taken
      split at taken
      next loop found =>
        split at taken
        next fits =>
          cases taken
          exact .queued found fits.1 (Or.inl rfl)
        · cases taken
      · cases taken
  | remoteEvent handle =>
      simp only [step] at taken
      split at taken
      next loop found =>
        split at taken
        next fits =>
          cases taken
          exact .queued found fits.1 (Or.inl rfl)
        · cases taken
      · cases taken
  | tick handle =>
      simp only [step] at taken
      split at taken
      next loop found =>
        split at taken
        · cases taken
        next idle =>
          split at taken
          next relationship present =>
            split at taken
            next enabled =>
              split at taken
              · cases taken
                exact .queued found (not_not.mp idle) (Or.inr ⟨relationship, present, enabled, rfl⟩)
              · cases taken
                exact .skipped
            next disabled =>
              cases taken
              refine .left found fun other same => ?_
              rw [present, Option.some.injEq] at same
              rw [← same]
              exact Bool.eq_false_iff.mpr disabled
          next absent =>
            cases taken
            refine .left found fun other same => ?_
            rw [absent] at same
            cases same
      · cases taken
  | begin handle =>
      simp only [step] at taken
      split at taken
      next loop found =>
        split at taken
        next kind source phase =>
          split at taken
          · cases taken
          · cases taken
            exact .begun found phase
        · cases taken
      · cases taken
  | drop handle =>
      simp only [step] at taken
      split at taken
      next loop found =>
        split at taken
        next aborted =>
          split at taken
          · cases taken
            exact .dropped _ found aborted
          · cases taken
            exact .dropped σ.guards found aborted
        · cases taken
      · cases taken
  | record worker path =>
      simp only [step] at taken
      split at taken
      next kind source inSync =>
        cases taken
        refine .wrote inSync (Or.inl rfl) (fun entry inside => ?_) (Or.inl rfl)
        rcases List.mem_cons.mp inside with rfl | old
        · exact Or.inr rfl
        · exact Or.inl old
      · cases taken
  | saveCheckpoint worker =>
      simp only [step] at taken
      split at taken
      next kind source inSync =>
        split at taken
        · cases taken
          exact .wrote inSync (Or.inr rfl) (fun _ => Or.inl) (Or.inl rfl)
        · cases taken
      · cases taken
  | finishMigration worker =>
      simp only [step] at taken
      split at taken
      next kind source inSync =>
        split at taken
        · cases taken
          exact .wrote inSync (Or.inl rfl) (fun _ => Or.inl) (Or.inr rfl)
        · cases taken
      · cases taken
  | finish worker =>
      simp only [step] at taken
      split at taken
      next handle =>
        split at taken
        next loop found =>
          split at taken
          · cases taken
            exact .finishedLoop _ found
          · cases taken
        · cases taken
      next token =>
        split at taken
        next source rest here =>
          cases taken
          exact .finishedRequest _ here
        · cases taken

def runActions (globMatch : Text → Text → Bool) (σ : Server) (actions : List Action) : Option Server :=
  actions.foldlM (step globMatch) σ

/-- A run is a list of steps, each of which the state before it allows. -/
inductive Run (globMatch : Text → Text → Bool) (allowed : Server → Action → Prop) :
    Server → List Action → Server → Prop
  | nil (σ : Server) : Run globMatch allowed σ [] σ
  | cons {σ middle last : Server} {action : Action} {actions : List Action}
      (taken : step globMatch σ action = some middle) (fits : allowed σ action)
      (rest : Run globMatch allowed middle actions last) : Run globMatch allowed σ (action :: actions) last

/-- What holds at first and is kept by every step holds after every run. -/
theorem Run.invariant {globMatch : Text → Text → Bool} {allowed : Server → Action → Prop}
    {I : Server → Prop} {σ last : Server} {actions : List Action}
    (run : Run globMatch allowed σ actions last)
    (keeps : ∀ σ next action, I σ → allowed σ action → step globMatch σ action = some next → I next)
    (first : I σ) : I last := by
  induction run with
  | nil => exact first
  | cons taken fits _ ih => exact ih (keeps _ _ _ first fits taken)

end AeordbSync

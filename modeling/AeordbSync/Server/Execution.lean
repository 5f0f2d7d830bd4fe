import AeordbSync.Library.Locks
import AeordbSync.Library.Runs
import AeordbSync.Server.Model

namespace AeordbSync
open Characters Locks

/-- The tasks that use the execution guards: the loops, the trigger and force-resync requests, and the
status requests. -/
inductive GuardOwner where
  | loop (handle : Nat)
  | request (token : Nat)
  | status (token : Nat)
  deriving DecidableEq

/-- Where a task is with the guard of a relationship. The guard is held from `holding` on. -/
inductive GuardStage where
  | idle
  | trying (ref : Nat)
  | holding (ref : Nat)
  | syncing (ref : Nat) (kind : SyncKind)
  | finished (ref : Nat)
  deriving DecidableEq

namespace GuardStage

def ref? : GuardStage → Option Nat
  | .idle => none
  | .trying ref => some ref
  | .holding ref => some ref
  | .syncing ref _ => some ref
  | .finished ref => some ref

def held? : GuardStage → Option Nat
  | .idle => none
  | .trying _ => none
  | .holding ref => some ref
  | .syncing ref _ => some ref
  | .finished ref => some ref

def isSyncing : GuardStage → Bool
  | .syncing _ _ => true
  | _ => false

end GuardStage

structure GuardTask where
  id : Text
  stage : GuardStage
  deriving DecidableEq

/-- A request that was told that a sync is already in progress. -/
structure Rejection where
  token : Nat
  id : Text
  seen : Bool
  deriving DecidableEq

/-- The last two fields only observe: whether an execution for the relationship of a request has been in
progress since the request began, and the requests that were rejected. -/
structure Runtime where
  guards : Table Text GuardOwner
  running : Text → Option Nat
  aborted : Nat → Bool
  tasks : GuardOwner → Option GuardTask
  seen : Nat → Bool
  rejected : List Rejection

/-- The steps of the tasks. -/
inductive GuardAction where
  | start (id : Text) (handle : Nat)
  | stop (id : Text)
  | branch (handle : Nat)
  | lock (handle : Nat)
  | exit (handle : Nat)
  | drop (handle : Nat)
  | receive (token : Nat) (id : Text)
  | reach (token : Nat)
  | tryLock (token : Nat)
  | call (owner : GuardOwner) (kind : SyncKind)
  | finish (owner : GuardOwner)
  | answer (token : Nat)
  | look (token : Nat) (id : Text)
  | peek (token : Nat)
  | leave (token : Nat)
  deriving DecidableEq

namespace Runtime

def initial : Runtime := ⟨.empty, fun _ => none, fun _ => false, fun _ => none, fun _ => false, []⟩

def setTask (r : Runtime) (owner : GuardOwner) (task : Option GuardTask) (guards : Table Text GuardOwner) :
    Runtime :=
  { r with tasks := Function.update r.tasks owner task, guards := guards }

/-- A task that ends gives back what it holds. -/
def released (r : Runtime) (task : GuardTask) : Table Text GuardOwner :=
  match task.stage.held? with
  | some ref => r.guards.release ref
  | none => r.guards

/-- The reference to the guard of a relationship is taken out of the map. -/
def entered (r : Runtime) (owner : GuardOwner) (id : Text) : Runtime :=
  r.setTask owner (some ⟨id, .trying (r.guards.entry id).2⟩) (r.guards.entry id).1

/-- A guard that is held by a loop or by a request belongs to an execution. -/
def executing (r : Runtime) (id : Text) : Bool :=
  match (r.guards.refs id).bind r.guards.holder with
  | some (.loop _) => true
  | some (.request _) => true
  | some (.status _) => false
  | none => false

/-- A request notices every execution of its relationship. -/
def observe (r : Runtime) : Runtime :=
  { r with seen := fun token => r.seen token || (r.tasks (.request token)).any fun task => r.executing task.id }

def move (r : Runtime) : GuardAction → Option Runtime
  | .start id handle =>
      if r.running id = none ∧ r.tasks (.loop handle) = none then
        some ({ r with
          running := Function.update r.running id (some handle)
          aborted := Function.update r.aborted handle false }.setTask (.loop handle) (some ⟨id, .idle⟩) r.guards)
      else none
  | .stop id => match r.running id with
      | some handle =>
          some { r with
            running := Function.update r.running id none
            aborted := Function.update r.aborted handle true }
      | none => none
  | .branch handle => match r.tasks (.loop handle) with
      | some ⟨id, .idle⟩ => some (r.entered (.loop handle) id)
      | _ => none
  | .lock handle => match r.tasks (.loop handle) with
      | some ⟨id, .trying ref⟩ =>
          (r.guards.acquire ref (.loop handle)).map (r.setTask (.loop handle) (some ⟨id, .holding ref⟩))
      | _ => none
  | .exit handle => match r.tasks (.loop handle) with
      | some ⟨_, .idle⟩ => some (r.setTask (.loop handle) none r.guards)
      | _ => none
  | .drop handle => match r.tasks (.loop handle) with
      | some task => if r.aborted handle then some (r.setTask (.loop handle) none (r.released task)) else none
      | none => none
  | .receive token id => match r.tasks (.request token) with
      | none => some { r.setTask (.request token) (some ⟨id, .idle⟩) r.guards with
          seen := Function.update r.seen token false }
      | some _ => none
  | .reach token => match r.tasks (.request token) with
      | some ⟨id, .idle⟩ => some (r.entered (.request token) id)
      | _ => none
  | .tryLock token => match r.tasks (.request token) with
      | some ⟨id, .trying ref⟩ => match r.guards.acquire ref (.request token) with
          | some guards => some (r.setTask (.request token) (some ⟨id, .holding ref⟩) guards)
          | none => some { r.setTask (.request token) none r.guards with
              rejected := ⟨token, id, r.seen token⟩ :: r.rejected }
      | _ => none
  | .call owner kind => match owner, r.tasks owner with
      | .status _, _ => none
      | owner, some ⟨id, .holding ref⟩ => some (r.setTask owner (some ⟨id, .syncing ref kind⟩) r.guards)
      | _, _ => none
  | .finish owner => match owner, r.tasks owner with
      | .loop handle, some ⟨id, .syncing ref _⟩ =>
          some (r.setTask (.loop handle) (some ⟨id, .idle⟩) (r.guards.release ref))
      | .request token, some ⟨id, .syncing ref _⟩ =>
          some (r.setTask (.request token) (some ⟨id, .finished ref⟩) r.guards)
      | _, _ => none
  | .answer token => match r.tasks (.request token) with
      | some task => some (r.setTask (.request token) none (r.released task))
      | none => none
  | .look token id => match r.tasks (.status token) with
      | none => some (r.entered (.status token) id)
      | some _ => none
  | .peek token => match r.tasks (.status token) with
      | some ⟨id, .trying ref⟩ => match r.guards.acquire ref (.status token) with
          | some guards => some (r.setTask (.status token) (some ⟨id, .holding ref⟩) guards)
          | none => some (r.setTask (.status token) none r.guards)
      | _ => none
  | .leave token => match r.tasks (.status token) with
      | some task => some (r.setTask (.status token) none (r.released task))
      | none => none

def step (r : Runtime) (action : GuardAction) : Option Runtime := (r.move action).map observe

end Runtime

/-- No two tasks are in a push, pull or sync of one relationship. -/
def Runtime.Exclusive (r : Runtime) : Prop :=
  ∀ owner other task task', r.tasks owner = some task → r.tasks other = some task' → task.id = task'.id →
    task.stage.isSyncing = true → task'.stage.isSyncing = true → owner = other

/-- A request tries the guard while no status request has it. -/
def Runtime.Unwatched (r : Runtime) (action : GuardAction) : Prop :=
  ∀ token task ref watcher, action = .tryLock token → r.tasks (.request token) = some task →
    task.stage.ref? = some ref → r.guards.holder ref ≠ some (.status watcher)

/-- A task has the guard of its own relationship, and holds it exactly when the guard says so. -/
structure Runtime.Guarded (r : Runtime) : Prop where
  named : ∀ owner task ref, r.tasks owner = some task → task.stage.ref? = some ref →
    r.guards.refs task.id = some ref
  held : ∀ owner task ref, r.tasks owner = some task → task.stage.held? = some ref →
    r.guards.holder ref = some owner
  owned : ∀ owner ref, r.guards.holder ref = some owner →
    ∃ task, r.tasks owner = some task ∧ task.stage.held? = some ref

theorem GuardStage.ref_of_held {stage : GuardStage} {ref : Nat} (held : stage.held? = some ref) :
    stage.ref? = some ref := by
  cases stage with
  | idle => cases held
  | trying _ => cases held
  | holding _ => exact held
  | syncing _ _ => exact held
  | finished _ => exact held

theorem GuardStage.held_of_isSyncing {stage : GuardStage} (syncing : stage.isSyncing = true) :
    ∃ ref, stage.held? = some ref := by
  cases stage with
  | syncing ref _ => exact ⟨ref, rfl⟩
  | _ => cases syncing

namespace Runtime

variable {r : Runtime} {owner : GuardOwner} {guards : Table Text GuardOwner}

theorem tasks_setTask_self (r : Runtime) (owner : GuardOwner) (task : Option GuardTask)
    (guards : Table Text GuardOwner) : (r.setTask owner task guards).tasks owner = task := by
  show Function.update r.tasks owner task owner = task
  rw [Function.update_self]

theorem tasks_setTask_of_ne {other : GuardOwner} (differs : other ≠ owner) (task : Option GuardTask)
    (guards : Table Text GuardOwner) : (r.setTask owner task guards).tasks other = r.tasks other := by
  show Function.update r.tasks owner task other = r.tasks other
  rw [Function.update_of_ne differs]

theorem Guarded.exclusive (guarded : r.Guarded) : r.Exclusive := by
  intro owner other task task' one two same first second
  obtain ⟨ref, held⟩ := GuardStage.held_of_isSyncing first
  obtain ⟨ref', held'⟩ := GuardStage.held_of_isSyncing second
  have named := guarded.named owner task ref one (GuardStage.ref_of_held held)
  have named' := guarded.named other task' ref' two (GuardStage.ref_of_held held')
  rw [same, named', Option.some.injEq] at named
  have holder := guarded.held owner task ref one held
  have holder' := guarded.held other task' ref' two held'
  rw [named, holder, Option.some.injEq] at holder'
  exact holder'

/-- One task moves on: it keeps a guard, takes a free one or gives back its own. -/
theorem Guarded.setTask (guarded : r.Guarded) {task : Option GuardTask}
    (refs : ∀ id ref, r.guards.refs id = some ref → guards.refs id = some ref)
    (named : ∀ next ref, task = some next → next.stage.ref? = some ref → guards.refs next.id = some ref)
    (taken : ∀ next ref, task = some next → next.stage.held? = some ref → guards.holder ref = some owner)
    (own : ∀ ref, guards.holder ref = some owner → ∃ next, task = some next ∧ next.stage.held? = some ref)
    (foreign : ∀ other ref, other ≠ owner → (guards.holder ref = some other ↔ r.guards.holder ref = some other)) :
    (r.setTask owner task guards).Guarded := by
  constructor
  · intro other next ref present reference
    by_cases same : other = owner
    · subst same
      rw [tasks_setTask_self] at present
      exact named next ref present reference
    · rw [tasks_setTask_of_ne same] at present
      exact refs _ _ (guarded.named other next ref present reference)
  · intro other next ref present held
    by_cases same : other = owner
    · subst same
      rw [tasks_setTask_self] at present
      exact taken next ref present held
    · rw [tasks_setTask_of_ne same] at present
      exact (foreign other ref same).mpr (guarded.held other next ref present held)
  · intro other ref holder
    by_cases same : other = owner
    · subst same
      obtain ⟨next, rfl, held⟩ := own ref holder
      exact ⟨next, tasks_setTask_self r other _ guards, held⟩
    · obtain ⟨next, present, held⟩ := guarded.owned other ref ((foreign other ref same).mp holder)
      exact ⟨next, (tasks_setTask_of_ne same task guards).trans present, held⟩

/-- A task that holds nothing owns no guard. -/
theorem Guarded.free (guarded : r.Guarded) (empty : ∀ task, r.tasks owner = some task → task.stage.held? = none)
    (ref : Nat) : r.guards.holder ref ≠ some owner := by
  intro holder
  obtain ⟨task, present, held⟩ := guarded.owned owner ref holder
  rw [empty task present] at held
  cases held

/-- A task without a guard moves to another stage without one. -/
theorem Guarded.idle (guarded : r.Guarded) {task : Option GuardTask}
    (before : ∀ old, r.tasks owner = some old → old.stage.held? = none)
    (after : ∀ next, task = some next → next.stage.ref? = none) : (r.setTask owner task r.guards).Guarded := by
  apply guarded.setTask (fun _ _ found => found)
  · intro next ref present reference
    rw [after next present] at reference
    cases reference
  · intro next ref present held
    have reference := GuardStage.ref_of_held held
    rw [after next present] at reference
    cases reference
  · intro ref holder
    exact absurd holder (guarded.free before ref)
  · exact fun _ _ _ => Iff.rfl

theorem Guarded.entered (guarded : r.Guarded) {id : Text}
    (before : ∀ old, r.tasks owner = some old → old.stage.held? = none) : (r.entered owner id).Guarded := by
  apply guarded.setTask (fun _ _ found => Table.entry_refs found)
  · intro next ref present reference
    cases present
    cases reference
    exact Table.entry_ref r.guards id
  · intro next ref present held
    cases present
    cases held
  · intro ref holder
    rw [Table.entry_holder] at holder
    exact absurd holder (guarded.free before ref)
  · intro other ref _
    rw [Table.entry_holder]

theorem Guarded.acquired (guarded : r.Guarded) {id : Text} {ref : Nat}
    (present : r.tasks owner = some ⟨id, .trying ref⟩) (taken : r.guards.acquire ref owner = some guards) :
    (r.setTask owner (some ⟨id, .holding ref⟩) guards).Guarded := by
  obtain ⟨vacant, rfl⟩ := Table.acquire_eq_some taken
  have alone := @Guarded.free r owner guarded fun old found => by
    rw [present, Option.some.injEq] at found
    rw [← found]
    rfl
  have refs : ∀ id place, r.guards.refs id = some place →
      (r.guards.hold ref (some owner)).refs id = some place := fun _ _ found => found
  apply guarded.setTask refs
  · intro next other same reference
    cases same
    cases reference
    exact guarded.named owner ⟨id, .trying ref⟩ ref present rfl
  · intro next other same held
    cases same
    cases held
    exact Function.update_self ..
  · intro other holder
    by_cases same : other = ref
    · exact ⟨_, rfl, by rw [same]; rfl⟩
    · exact absurd ((Function.update_of_ne same ..).symm.trans holder) (alone other)
  · intro other place differs
    by_cases same : place = ref
    · subst same
      show Function.update r.guards.holder place (some owner) place = some other ↔ _
      rw [Function.update_self, vacant]
      simp [Ne.symm differs]
    · show Function.update r.guards.holder ref (some owner) place = some other ↔ _
      rw [Function.update_of_ne same]

/-- A task that keeps its guard. -/
theorem Guarded.kept (guarded : r.Guarded) {id : Text} {stage next : GuardStage}
    (present : r.tasks owner = some ⟨id, stage⟩) (held : stage.held? = next.held?) (ref : stage.ref? = next.ref?) :
    (r.setTask owner (some ⟨id, next⟩) r.guards).Guarded := by
  apply guarded.setTask (fun _ _ found => found)
  · intro task place same reference
    cases same
    exact guarded.named owner ⟨id, stage⟩ place present (ref.trans reference)
  · intro task place same holds
    cases same
    exact guarded.held owner ⟨id, stage⟩ place present (held.trans holds)
  · intro place holder
    obtain ⟨task, found, holds⟩ := guarded.owned owner place holder
    rw [present, Option.some.injEq] at found
    subst found
    exact ⟨_, rfl, held.symm.trans holds⟩
  · exact fun _ _ _ => Iff.rfl

/-- A task gives back its guard, where it holds one, and ends or becomes idle. -/
theorem Guarded.released (guarded : r.Guarded) {old : GuardTask} {task : Option GuardTask}
    (present : r.tasks owner = some old) (after : ∀ next, task = some next → next.stage = .idle) :
    (r.setTask owner task (r.released old)).Guarded := by
  have idle : ∀ next, task = some next → next.stage.ref? = none := by
    intro next same
    rw [after next same]
    rfl
  cases held : old.stage.held? with
  | none =>
      have same : r.released old = r.guards := by rw [Runtime.released, held]
      rw [same]
      apply guarded.idle _ idle
      intro other found
      rw [present, Option.some.injEq] at found
      rw [← found]
      exact held
  | some ref =>
      have same : r.released old = r.guards.release ref := by rw [Runtime.released, held]
      have holder := guarded.held owner old ref present held
      have refs : ∀ id place, r.guards.refs id = some place →
          (r.guards.release ref).refs id = some place := fun _ _ found => found
      rw [same]
      apply guarded.setTask refs
      · intro next place equal reference
        rw [idle next equal] at reference
        cases reference
      · intro next place equal holds
        have reference := GuardStage.ref_of_held holds
        rw [idle next equal] at reference
        cases reference
      · intro place holds
        by_cases here : place = ref
        · subst here
          have gone : (r.guards.release place).holder place = none := Function.update_self ..
          rw [gone] at holds
          cases holds
        · have before : r.guards.holder place = some owner := (Function.update_of_ne here ..).symm.trans holds
          obtain ⟨other, found, other_held⟩ := guarded.owned owner place before
          rw [present, Option.some.injEq] at found
          subst found
          rw [held, Option.some.injEq] at other_held
          exact absurd other_held.symm here
      · intro other place differs
        by_cases here : place = ref
        · subst here
          show Function.update r.guards.holder place none place = some other ↔ _
          rw [Function.update_self, holder]
          simp [Ne.symm differs]
        · show Function.update r.guards.holder ref none place = some other ↔ _
          rw [Function.update_of_ne here]

theorem Guarded.congr (guarded : r.Guarded) {after : Runtime} (guards : after.guards = r.guards)
    (tasks : after.tasks = r.tasks) : after.Guarded := by
  obtain ⟨named, held, owned⟩ := guarded
  constructor
  · rw [guards, tasks]
    exact named
  · rw [guards, tasks]
    exact held
  · rw [guards, tasks]
    exact owned

theorem guarded_initial : initial.Guarded := by
  constructor
  · intro _ _ _ present
    cases present
  · intro _ _ _ present
    cases present
  · intro _ _ holder
    cases holder

theorem holds_nothing {id : Text} {stage : GuardStage} (present : r.tasks owner = some ⟨id, stage⟩)
    (nothing : stage.held? = none) : ∀ old, r.tasks owner = some old → old.stage.held? = none := by
  intro old found
  rw [present, Option.some.injEq] at found
  rw [← found]
  exact nothing

/-- A task that is absent has nothing to give back. -/
theorem absent_nothing (absent : r.tasks owner = none) :
    ∀ old, r.tasks owner = some old → old.stage.held? = none := by
  intro old found
  rw [absent] at found
  cases found

/-- No step breaks the order of the guards. -/
theorem Guarded.move (guarded : r.Guarded) {action : GuardAction} {after : Runtime}
    (taken : r.move action = some after) : after.Guarded := by
  have removed : ∀ next : GuardTask, (none : Option GuardTask) = some next → next.stage.ref? = none :=
    fun _ same => by cases same
  have ended : ∀ next : GuardTask, (none : Option GuardTask) = some next → next.stage = .idle :=
    fun _ same => by cases same
  cases action with
  | start id handle =>
      simp only [Runtime.move] at taken
      split at taken
      next fits =>
        cases taken
        apply Guarded.idle (r := { r with running := _, aborted := _ })
        · exact guarded.congr rfl rfl
        · exact absent_nothing fits.2
        · intro next same
          cases same
          rfl
      · cases taken
  | stop id =>
      simp only [Runtime.move] at taken
      split at taken
      · cases taken
        exact guarded.congr rfl rfl
      · cases taken
  | branch handle =>
      simp only [Runtime.move] at taken
      split at taken
      next id present =>
        cases taken
        exact guarded.entered (holds_nothing present rfl)
      · cases taken
  | lock handle =>
      simp only [Runtime.move] at taken
      split at taken
      next id ref present =>
        obtain ⟨guards, acquired, rfl⟩ := Option.map_eq_some_iff.mp taken
        exact guarded.acquired present acquired
      · cases taken
  | exit handle =>
      simp only [Runtime.move] at taken
      split at taken
      next id present =>
        cases taken
        exact guarded.idle (holds_nothing present rfl) removed
      · cases taken
  | drop handle =>
      simp only [Runtime.move] at taken
      split at taken
      next task present =>
        split at taken
        · cases taken
          exact guarded.released present ended
        · cases taken
      · cases taken
  | receive token id =>
      simp only [Runtime.move] at taken
      split at taken
      next absent =>
        cases taken
        have begun : (r.setTask (.request token) (some ⟨id, .idle⟩) r.guards).Guarded := by
          apply guarded.idle (absent_nothing absent)
          intro next same
          cases same
          rfl
        exact begun.congr rfl rfl
      · cases taken
  | reach token =>
      simp only [Runtime.move] at taken
      split at taken
      next id present =>
        cases taken
        exact guarded.entered (holds_nothing present rfl)
      · cases taken
  | tryLock token =>
      simp only [Runtime.move] at taken
      split at taken
      next id ref present =>
        split at taken
        next guards acquired =>
          cases taken
          exact guarded.acquired present acquired
        · cases taken
          have refused := guarded.idle (holds_nothing present rfl) removed
          exact refused.congr rfl rfl
      · cases taken
  | call owner kind =>
      simp only [Runtime.move] at taken
      split at taken
      · cases taken
      next owner id ref _ present =>
        cases taken
        exact guarded.kept present rfl rfl
      · cases taken
  | finish owner =>
      simp only [Runtime.move] at taken
      split at taken
      next handle id ref kind present =>
        cases taken
        exact guarded.released present fun next same => by cases same; rfl
      next token id ref kind present =>
        cases taken
        exact guarded.kept present rfl rfl
      · cases taken
  | answer token =>
      simp only [Runtime.move] at taken
      split at taken
      next task present =>
        cases taken
        exact guarded.released present ended
      · cases taken
  | look token id =>
      simp only [Runtime.move] at taken
      split at taken
      next absent =>
        cases taken
        exact guarded.entered (absent_nothing absent)
      · cases taken
  | peek token =>
      simp only [Runtime.move] at taken
      split at taken
      next id ref present =>
        split at taken
        next guards acquired =>
          cases taken
          exact guarded.acquired present acquired
        · cases taken
          exact guarded.idle (holds_nothing present rfl) removed
      · cases taken
  | leave token =>
      simp only [Runtime.move] at taken
      split at taken
      next task present =>
        cases taken
        exact guarded.released present ended
      · cases taken

/-- Only a request that finds its guard held is rejected. -/
theorem rejected_move {action : GuardAction} {after : Runtime} (taken : r.move action = some after) :
    after.rejected = r.rejected ∨ ∃ token id ref other, action = .tryLock token ∧
      r.tasks (.request token) = some ⟨id, .trying ref⟩ ∧ r.guards.holder ref = some other ∧
      after.rejected = ⟨token, id, r.seen token⟩ :: r.rejected := by
  by_cases tries : ∃ token, action = .tryLock token
  · obtain ⟨token, rfl⟩ := tries
    simp only [Runtime.move] at taken
    split at taken
    next id ref present =>
      split at taken
      · cases taken
        exact Or.inl rfl
      next refused =>
        cases taken
        obtain ⟨other, holder⟩ := Table.acquire_eq_none refused
        exact Or.inr ⟨token, id, ref, other, rfl, present, holder, rfl⟩
    · cases taken
  · left
    cases action with
    | tryLock token => exact absurd ⟨token, rfl⟩ tries
    | lock handle =>
        simp only [Runtime.move] at taken
        split at taken
        · obtain ⟨guards, -, rfl⟩ := Option.map_eq_some_iff.mp taken
          rfl
        · cases taken
    | _ =>
        simp only [Runtime.move] at taken
        repeat' split at taken
        all_goals
          cases taken
          try rfl

/-- Every request in progress has noticed the executions so far, and every rejected one had seen one. -/
structure Fair (r : Runtime) : Prop where
  noticed : ∀ token task, r.tasks (.request token) = some task → r.executing task.id = true →
    r.seen token = true
  justified : ∀ rejection ∈ r.rejected, rejection.seen = true

theorem executing_of_holder {id : Text} {ref : Nat} {other : GuardOwner} (found : r.guards.refs id = some ref)
    (holder : r.guards.holder ref = some other) (real : ∀ token, other ≠ .status token) : r.executing id = true := by
  cases other with
  | loop handle => simp [executing, found, holder]
  | request token => simp [executing, found, holder]
  | status token => exact absurd rfl (real token)

theorem Fair.step (fair : r.Fair) (guarded : r.Guarded) {action : GuardAction} {after : Runtime}
    (unwatched : r.Unwatched action) (taken : r.step action = some after) : after.Fair := by
  obtain ⟨middle, moved, rfl⟩ := Option.map_eq_some_iff.mp taken
  constructor
  · intro token task present executing
    have here : middle.tasks (.request token) = some task := present
    have now : middle.executing task.id = true := executing
    show (middle.seen token || _) = true
    rw [here, Option.any_some, now, Bool.or_true]
  · show ∀ rejection ∈ middle.rejected, rejection.seen = true
    rcases rejected_move moved with same | ⟨token, id, ref, other, rfl, present, holder, added⟩
    · rw [same]
      exact fair.justified
    · rw [added]
      have named := guarded.named (.request token) ⟨id, .trying ref⟩ ref present rfl
      have real : ∀ watcher, other ≠ .status watcher := by
        rintro watcher rfl
        exact unwatched token _ ref watcher rfl present rfl holder
      have seen := fair.noticed token _ present (executing_of_holder named holder real)
      intro rejection inside
      rcases List.mem_cons.mp inside with rfl | old
      · exact seen
      · exact fair.justified rejection old

theorem Guarded.step (guarded : r.Guarded) {action : GuardAction} {after : Runtime}
    (taken : r.step action = some after) : after.Guarded := by
  obtain ⟨middle, moved, rfl⟩ := Option.map_eq_some_iff.mp taken
  exact (guarded.move moved).congr rfl rfl

theorem fair_initial : initial.Fair := by
  constructor
  · intro _ _ present
    cases present
  · intro _ inside
    cases inside

/-- At most one push, pull or sync of a relationship is in progress. A request is told that one is in
progress only if it was while the request ran, provided no status request had the guard then. -/
theorem executions_guarded {actions : List GuardAction} {last : Runtime} :
    (Runs.Run step (fun _ _ => True) initial actions last → last.Exclusive) ∧
      (Runs.Run step Unwatched initial actions last → ∀ rejection ∈ last.rejected, rejection.seen = true) := by
  constructor
  · intro run
    exact (run.invariant (fun _ _ _ guarded _ taken => guarded.step taken) guarded_initial).exclusive
  · intro run
    have kept : last.Guarded ∧ last.Fair := by
      apply run.invariant (I := fun r => r.Guarded ∧ r.Fair)
      · intro r next action holds unwatched taken
        exact ⟨holds.1.step taken, holds.2.step holds.1 unwatched taken⟩
      · exact ⟨guarded_initial, fair_initial⟩
    exact kept.2.justified

/-- A loop syncs while a request for the same relationship comes in. -/
def busyActions : List GuardAction :=
  [.start (text "docs") 0, .branch 0, .lock 0, .call (.loop 0) .full, .receive 1 (text "docs"), .reach 1,
    .tryLock 1]

theorem executions_guarded_busy : ∃ last, Runs.Run step Unwatched initial busyActions last ∧
    last.rejected = [⟨1, text "docs", true⟩] ∧ last.Exclusive ∧
    ∀ rejection ∈ last.rejected, rejection.seen = true := by
  have free : ∀ r : Runtime, ∀ action, (∀ token, action ≠ .tryLock token) → r.Unwatched action :=
    fun r action other token _ _ _ same => absurd same (other token)
  have ran : ∃ last, Runs.Run step Unwatched initial busyActions last ∧
      last.rejected = [⟨1, text "docs", true⟩] := by
    apply Exists.intro
    apply And.intro
    · apply Runs.Run.cons rfl (free _ _ (by simp))
      apply Runs.Run.cons rfl (free _ _ (by simp))
      apply Runs.Run.cons rfl (free _ _ (by simp))
      apply Runs.Run.cons rfl (free _ _ (by simp))
      apply Runs.Run.cons rfl (free _ _ (by simp))
      apply Runs.Run.cons rfl (free _ _ (by simp))
      apply Runs.Run.cons rfl
      · intro token task ref watcher same present reference holder
        cases same
        cases present
        cases reference
        cases holder
      · exact Runs.Run.nil _
    · rfl
  obtain ⟨last, run, rejected⟩ := ran
  exact ⟨last, run, rejected, executions_guarded.1 (run.mono fun _ _ _ => trivial), executions_guarded.2 run⟩

/-- A status request has the guard for a moment, and no execution of the relationship is ever begun. -/
theorem request_rejected_idle : ∃ last, Runs.Run step (fun _ _ => True) initial
    [.receive 0 (text "docs"), .reach 0, .look 0 (text "docs"), .peek 0, .tryLock 0] last ∧
    ¬ ∀ rejection ∈ last.rejected, rejection.seen = true := by
  apply Exists.intro
  apply And.intro
  · exact Runs.run_of_after rfl
  · intro justified
    have seen := justified ⟨0, text "docs", false⟩ List.mem_cons_self
    cases seen

end Runtime

end AeordbSync

import AeordbSync.Reference
import AeordbSync.Server.Discipline

namespace AeordbSync
open Characters OsPath Server

variable {σ after : Server} {token : Nat} {rest : List Operation} {fails : Bool} {moment : Int}
  {globMatch : Text → Text → Bool} {action : Action}

namespace Server

/-- Nothing runs yet and no request has been received. -/
structure Fresh (σ : Server) : Prop where
  running : σ.running = []
  loops : ∀ handle, σ.loops handle = none
  lock : σ.lock = none
  requests : ∀ token, σ.requests token = []
  starts : σ.starts = []

theorem Fresh.no_live (fresh : σ.Fresh) (handle : Nat) (id : Text) : ¬ σ.Live handle id := by
  rintro ⟨loop, found, -⟩
  rw [fresh.loops] at found
  cases found

theorem Fresh.no_request (fresh : σ.Fresh) (token : Nat) (operation : Operation) :
    operation ∉ σ.requests token := by
  rw [fresh.requests]
  exact List.not_mem_nil

theorem Fresh.disciplined (fresh : σ.Fresh) : Disciplined σ where
  keys := by simp [fresh.running]
  fresh handle id live := (fresh.no_live handle id live).elim
  mapped := by simp [fresh.running]
  named := by simp [fresh.running]
  holder token operation inside := (fresh.no_request token operation inside).elim
  first token operation inside := (fresh.no_request token operation (List.mem_of_mem_tail inside)).elim
  spawning token source inside := (fresh.no_request token _ inside).elim

/-- Every entry of the map stands for a loop that nobody has aborted. -/
structure Attended (σ : Server) : Prop where
  alive : ∀ entry ∈ σ.running, ∃ loop, σ.loops entry.2 = some loop ∧ loop.aborted = false
  apart : ∀ token handle, .abort handle ∈ σ.requests token →
    handle < σ.nextHandle ∧ ∀ entry ∈ σ.running, entry.2 ≠ handle

/-- A start finds nothing left over, and no timer finds its relationship disabled or deleted. -/
def Steady (σ : Server) (action : Action) : Prop :=
  σ.Orderly action ∧ ∀ handle loop, action = .tick handle → σ.loops handle = some loop →
    ∃ relationship, σ.config.get loop.id = some relationship ∧ relationship.enabled = true

theorem Attended.kept (attended : Attended σ) (running : after.running = σ.running)
    (nextHandle : after.nextHandle = σ.nextHandle)
    (loops : ∀ handle loop, σ.loops handle = some loop → loop.aborted = false →
      ∃ other, after.loops handle = some other ∧ other.aborted = false)
    (aborts : ∀ token handle, .abort handle ∈ after.requests token → .abort handle ∈ σ.requests token) :
    Attended after where
  alive entry inside := by
    obtain ⟨loop, found, free⟩ := attended.alive entry (running ▸ inside)
    exact loops entry.2 loop found free
  apart token handle inside := by
    rw [running, nextHandle]
    exact attended.apart token handle (aborts token handle inside)

theorem Attended.sameRunner (attended : Attended σ) {base : Server} (same : SameRunner σ base) :
    Attended base :=
  attended.kept same.running same.nextHandle (fun _ loop found free => ⟨loop, same.loops ▸ found, free⟩)
    fun _ _ inside => same.requests ▸ inside

theorem Attended.inPhase (attended : Attended σ) {handle : Nat} {loop : SyncLoop} {phase : LoopPhase}
    (found : σ.loops handle = some loop) : Attended (σ.inPhase handle loop phase) := by
  refine attended.kept rfl rfl (fun other entry present free => ?_) fun _ _ => id
  by_cases same : other = handle
  · subst same
    rw [found, Option.some.injEq] at present
    exact ⟨{ loop with phase := phase }, by simp [Server.inPhase, setLoop], by rw [present]; exact free⟩
  · exact ⟨entry, by simpa [Server.inPhase, setLoop, Function.update_of_ne same] using present, free⟩

theorem Attended.ended (attended : Attended σ) {handle : Nat} {loop : SyncLoop}
    (found : σ.loops handle = some loop) (aborted : loop.aborted = true) :
    Attended (σ.setLoop handle none) where
  alive entry inside := by
    obtain ⟨other, present, free⟩ := attended.alive entry inside
    have differs : entry.2 ≠ handle := by
      rintro equal
      rw [equal, found, Option.some.injEq] at present
      rw [← present, aborted] at free
      cases free
    exact ⟨other, by simpa [setLoop, Function.update_of_ne differs] using present, free⟩
  apart := attended.apart

theorem Attended.moved (attended : Attended σ) (base : Server) (new : List Operation) {current : Operation}
    (here : σ.requests token = current :: rest)
    (running : base.running = σ.running) (nextHandle : base.nextHandle = σ.nextHandle)
    (loops : base.loops = σ.loops) (requests : base.requests = σ.requests)
    (none : ∀ handle, .abort handle ∉ new) : Attended (base.next token (new ++ rest)) := by
  refine attended.kept running nextHandle (fun handle loop found free => ⟨loop, ?_, free⟩)
    fun moved handle inside => ?_
  · exact (congrFun loops handle).trans found
  · have inside : .abort handle ∈ Function.update base.requests token (new ++ rest) moved := inside
    rw [requests] at inside
    exact (mem_after here inside).resolve_right fun fresh => none handle fresh.2

/-- A request that no longer waits for a loop. -/
theorem Attended.released (attended : Attended σ) {handle : Nat} {locked : Bool}
    (here : σ.requests token = .await handle locked :: rest) :
    Attended ((σ.unlocked locked).next token ([] ++ rest)) := by
  cases locked with
  | false => exact attended.moved σ [] here rfl rfl rfl rfl fun _ => List.not_mem_nil
  | true => exact attended.moved { σ with lock := none } [] here rfl rfl rfl rfl fun _ => List.not_mem_nil

theorem Attended.spawned (attended : Attended σ) (disciplined : Disciplined σ) {source : Captured}
    (here : σ.requests token = .spawn source :: rest) :
    Attended ((σ.spawned source).next token ([] ++ rest)) where
  alive := by
    intro entry inside
    rcases List.mem_cons.mp inside with rfl | old
    · exact ⟨⟨source, .queued .full source, false⟩, by simp [next, Server.spawned], rfl⟩
    · obtain ⟨loop, found, free⟩ := attended.alive entry old
      have differs : entry.2 ≠ σ.nextHandle := (disciplined.mapped entry old).ne
      exact ⟨loop, by simpa [next, Server.spawned, Function.update_of_ne differs] using found, free⟩
  apart := by
    intro moved handle inside
    have old := (mem_after here inside).resolve_right fun fresh => List.not_mem_nil fresh.2
    obtain ⟨below, away⟩ := attended.apart moved handle old
    refine ⟨Nat.lt_succ_of_lt below, fun entry among => ?_⟩
    rcases List.mem_cons.mp among with rfl | later
    · exact below.ne'
    · exact away entry later

theorem Attended.stopping (attended : Attended σ) (disciplined : Disciplined σ) {id : Text} {handle : Nat}
    (here : σ.requests token = .stop id :: rest) (found : σ.running.lookup id = some handle) :
    Attended ((σ.stopping token id handle).next token ([Operation.await handle true] ++ rest)) where
  alive := by
    intro entry inside
    obtain ⟨old, differs⟩ := List.mem_filter.mp inside
    obtain ⟨loop, present, free⟩ := attended.alive entry old
    have other : entry.2 ≠ handle := by
      intro equal
      have one := disciplined.named entry old loop.id ⟨loop, present, rfl⟩
      have two := disciplined.named _ (mem_running_of_lookup found) loop.id ⟨loop, equal ▸ present, rfl⟩
      rw [← one, two] at differs
      simp at differs
    exact ⟨loop, by simpa [next, Server.stopping, Server.aborted, setLoop, Function.update_of_ne other]
      using present, free⟩
  apart := by
    intro moved other inside
    have old := (mem_after here inside).resolve_right fun fresh => by
      cases List.mem_singleton.mp fresh.2
    obtain ⟨below, away⟩ := attended.apart moved other old
    exact ⟨below, fun entry among => away entry (List.mem_filter.mp among).1⟩

theorem Attended.aborting (attended : Attended σ) {handle : Nat}
    (here : σ.requests token = .abort handle :: rest) :
    Attended ((σ.aborted handle).next token ([Operation.await handle false] ++ rest)) where
  alive := by
    intro entry inside
    obtain ⟨loop, present, free⟩ := attended.alive entry inside
    have other := (attended.apart token handle (here ▸ List.mem_cons_self ..)).2 entry inside
    exact ⟨loop, by simpa [next, Server.aborted, setLoop, Function.update_of_ne other] using present, free⟩
  apart := by
    intro moved other inside
    have old := (mem_after here inside).resolve_right fun fresh => by
      cases List.mem_singleton.mp fresh.2
    exact attended.apart moved other old

theorem Attended.drained (attended : Attended σ) (disciplined : Disciplined σ)
    (here : σ.requests token = .drain :: rest) :
    Attended (({ σ with running := [] } : Server).next token
      ((σ.running.map fun entry => Operation.abort entry.2) ++ rest)) where
  alive _ inside := (List.not_mem_nil inside).elim
  apart := by
    intro moved handle inside
    refine ⟨?_, fun _ inside => (List.not_mem_nil inside).elim⟩
    rcases mem_after here inside with old | ⟨-, aborts⟩
    · exact (attended.apart moved handle old).1
    · obtain ⟨entry, among, equal⟩ := List.mem_map.mp aborts
      cases equal
      exact disciplined.mapped entry among

/-- What a step of a request does to the map keeps the loops behind it alive. -/
theorem Attended.operate (attended : Attended σ) (disciplined : Disciplined σ) {operation : Operation}
    (here : σ.requests token = operation :: rest)
    (taken : operate σ token rest fails moment operation = some after) : Attended after := by
  have nothing : Attended (σ.next token ([] ++ rest)) :=
    attended.moved σ [] here rfl rfl rfl rfl fun _ => List.not_mem_nil
  cases operation with
  | start id =>
      simp only [AeordbSync.operate] at taken
      split at taken
      · cases taken
      · split at taken
        · cases taken
          exact nothing
        · split at taken
          · cases taken
            exact nothing
          next source found =>
            cases taken
            exact attended.moved { σ with lock := some token } [Operation.spawn source] here rfl rfl rfl rfl
              (by simp)
  | spawn source =>
      cases taken
      exact attended.spawned disciplined here
  | stop id =>
      simp only [AeordbSync.operate] at taken
      split at taken
      · cases taken
      · split at taken
        · cases taken
          exact nothing
        next handle found =>
          cases taken
          exact attended.stopping disciplined here found
  | abort handle =>
      cases taken
      exact attended.aborting here
  | await handle locked =>
      simp only [AeordbSync.operate] at taken
      split at taken
      · cases taken
        exact attended.released here
      · cases taken
  | drain =>
      simp only [AeordbSync.operate] at taken
      split at taken
      · cases taken
      · cases taken
        exact attended.drained disciplined here
  | _ =>
      obtain ⟨base, new, same, plain, rfl⟩ := operate_ordinary rfl taken
      refine attended.moved base new here same.running same.nextHandle same.loops same.requests fun handle inside => ?_
      cases (plain _ inside).1

theorem Attended.step (attended : Attended σ) (disciplined : Disciplined σ) (steady : σ.Steady action)
    (stepped : Stepped σ action after) : Attended after := by
  cases stepped with
  | @received token operation empty request =>
      refine attended.kept rfl rfl (fun _ loop found free => ⟨loop, found, free⟩) fun moved handle inside => ?_
      by_cases same : moved = token
      · subst same
        simp only [next, Function.update_self, List.mem_singleton] at inside
        rw [← inside] at request
        cases request
      · simpa only [next, Function.update_of_ne same] using inside
  | operated here taken => exact attended.operate disciplined here taken
  | timedOut here => exact attended.released here
  | queued found => exact attended.inPhase found
  | left found gone =>
      obtain ⟨relationship, present, enabled⟩ := steady.2 _ _ rfl found
      rw [gone relationship present] at enabled
      cases enabled
  | skipped => exact attended
  | @begun handle loop kind source found =>
      have same := sameRunner_begun σ kind source
      exact (attended.sameRunner same).inPhase (same.loop found)
  | dropped guards found aborted =>
      exact (attended.sameRunner (sameRunner_guards σ guards)).ended found aborted
  | wrote => exact attended.sameRunner (sameRunner_setStore ..)
  | finishedLoop guards found => exact (attended.sameRunner (sameRunner_guards σ guards)).inPhase found
  | finishedRequest guards here =>
      exact attended.moved { σ with guards := guards } [] here rfl rfl rfl rfl fun _ => List.not_mem_nil

/-- In every steady run the map names exactly loops that live, no relationship has two loops, and a
start of an enabled relationship ends with a loop. -/
theorem isRunning_live (globMatch : Text → Text → Bool) (first : Server) (actions : List Action)
    (last : Server) (fresh : first.Fresh) (run : Run globMatch Steady first actions last) :
    (∀ id, last.isRunning id = true → ∃ handle, last.Live handle id) ∧
      (∀ id one two, last.Live one id → last.Live two id → one = two) ∧
      (∀ token id rest moment source after, last.requests token = .start id :: rest →
        startable last id = some source → step globMatch last (.advance token false moment) = some after →
        (∃ handle, after.Live handle id) ∨ after.requests token = .spawn source :: rest) ∧
      ∀ token source rest fails moment after, last.requests token = .spawn source :: rest →
        step globMatch last (.advance token fails moment) = some after →
        ∃ handle, after.Live handle source.id := by
  have invariant : Disciplined last ∧ Sole last ∧ Attended last := by
    refine run.invariant (I := fun σ => Disciplined σ ∧ Sole σ ∧ Attended σ)
      (fun σ next action holds steady taken => ?_) ?_
    · obtain ⟨disciplined, sole, attended⟩ := holds
      have taken := stepped taken
      exact ⟨disciplined.step taken, sole.step disciplined steady.1 taken,
        attended.step disciplined steady taken⟩
    · refine ⟨fresh.disciplined, fun one _ id live _ => (fresh.no_live one id live).elim, ?_, ?_⟩
      · simp [fresh.running]
      · exact fun token handle inside => (fresh.no_request token _ inside).elim
  obtain ⟨disciplined, sole, attended⟩ := invariant
  have mapped : ∀ id, last.isRunning id = true → ∃ handle, last.Live handle id := by
    intro id running
    obtain ⟨handle, inside⟩ := (last.isRunning_iff id).mp running
    obtain ⟨loop, found, -⟩ := attended.alive _ inside
    exact ⟨handle, loop, found, disciplined.named _ inside loop.id ⟨loop, found, rfl⟩⟩
  refine ⟨mapped, fun id one two => sole one two id, ?_, ?_⟩
  · intro token id rest moment source after here found taken
    simp only [AeordbSync.step, here, operate, Bool.false_eq_true, false_or, found] at taken
    split at taken
    · cases taken
    · split at taken
      next running =>
        cases taken
        exact Or.inl (mapped id running)
      · cases taken
        exact Or.inr (by simp [next])
  · intro token source rest fails moment after here taken
    simp only [AeordbSync.step, here, operate, Option.some.injEq] at taken
    subst taken
    exact ⟨last.nextHandle, live_spawned.mpr (Or.inl ⟨rfl, rfl⟩)⟩

/-- A server with these relationships on which nothing runs yet. -/
def idleServer (relationships : Config) : Server where
  config := relationships
  connections := [text "engine"]
  running := []
  loops _ := none
  nextHandle := 0
  lock := none
  guards _ := false
  requests _ := []
  stores _ := ⟨[], none, none⟩
  versions _ := 0
  history id version := if version = 0 then settingsAt relationships id else none
  settled _ := 0
  rooted _ := none
  starts := []

def equalNames (pattern name : Text) : Bool := pattern == name

def startedLoop : List Action :=
  [.receive 0 (.start (text "docs")), .advance 0 false 0, .advance 0 false 0, .begin 0, .finish (.loop 0)]

theorem isRunning_live_startedLoop : ∃ last,
    runActions equalNames (idleServer [docsRelationship none]) startedLoop = some last ∧
    (∀ id, last.isRunning id = true → ∃ handle, last.Live handle id) ∧
      (∀ id one two, last.Live one id → last.Live two id → one = two) ∧
      (∀ token id rest moment source after, last.requests token = .start id :: rest →
        startable last id = some source → step equalNames last (.advance token false moment) = some after →
        (∃ handle, after.Live handle id) ∨ after.requests token = .spawn source :: rest) ∧
      ∀ token source rest fails moment after, last.requests token = .spawn source :: rest →
        step equalNames last (.advance token fails moment) = some after →
        ∃ handle, after.Live handle source.id := by
  have noTick : ∀ (σ : Server) (action : Action), (∀ handle, action ≠ .tick handle) →
      ∀ handle loop, action = .tick handle → σ.loops handle = some loop →
        ∃ relationship, σ.config.get loop.id = some relationship ∧ relationship.enabled = true :=
    fun _ _ never handle _ equal => absurd equal (never handle)
  refine ⟨_, rfl, isRunning_live equalNames (idleServer [docsRelationship none]) startedLoop _
    ⟨rfl, fun _ => rfl, rfl, fun _ => rfl, rfl⟩ ?_⟩
  refine .cons rfl ⟨trivial, noTick _ _ (by simp)⟩ (.cons rfl ⟨?_, noTick _ _ (by simp)⟩
    (.cons rfl ⟨?_, noTick _ _ (by simp)⟩ (.cons rfl ⟨trivial, noTick _ _ (by simp)⟩
      (.cons rfl ⟨trivial, noTick _ _ (by simp)⟩ (.nil _)))))
  · rintro source rest here
    cases here
  · rintro source rest here handle ⟨⟨loop, found, -⟩, -⟩
    cases found

def disabledByUpdate : List Action :=
  [.receive 1 (.inspect (text "docs") (enabledRequest false)), .advance 1 false 0, .advance 1 false 0,
    .advance 1 false 0, .tick 0]

def enabledAgain : List Action :=
  [.receive 2 (.setEnabled (text "docs") true), .advance 2 false 0, .advance 2 false 0, .advance 2 false 0]

/-- A loop that ends on its own stays in the map, and enabling its relationship again starts nothing. -/
theorem isRunning_stale : ∃ last, runActions equalNames (idleServer [docsRelationship none])
      (startedLoop ++ disabledByUpdate ++ enabledAgain) = some last ∧
    last.isRunning (text "docs") = true ∧ (∀ token, last.requests token = []) ∧
    (last.config.get (text "docs")).map SyncRelationship.enabled = some true ∧
    ∀ handle id, ¬ last.Live handle id := by
  refine ⟨_, rfl, by decide, ?_, by decide, ?_⟩
  · rintro (_ | _ | _ | token) <;> rfl
  · rintro (_ | handle) id ⟨loop, found, -⟩ <;> cases found

end Server

end AeordbSync

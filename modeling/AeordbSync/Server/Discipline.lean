import AeordbSync.Server.Accounts

namespace AeordbSync
open Characters OsPath Server

variable {σ after : Server} {token : Nat} {rest : List Operation} {fails : Bool} {moment : Int}

namespace Server

theorem isRunning_iff (σ : Server) (id : Text) :
    σ.isRunning id = true ↔ ∃ handle, (id, handle) ∈ σ.running := by
  rw [isRunning, Option.isSome_iff_exists]
  constructor
  · rintro ⟨handle, found⟩
    obtain ⟨front, back, equal, -⟩ := List.lookup_eq_some_iff.mp found
    exact ⟨handle, by rw [equal]; simp⟩
  · rintro ⟨handle, inside⟩
    by_contra absent
    have none : σ.running.lookup id = none := by
      simpa [← Option.not_isSome_iff_eq_none, Option.isSome_iff_exists] using absent
    have differs := List.lookup_eq_none_iff.mp none _ inside
    simp at differs

theorem mem_running_of_lookup {id : Text} {handle : Nat} (found : σ.running.lookup id = some handle) :
    (id, handle) ∈ σ.running := by
  obtain ⟨front, back, equal, -⟩ := List.lookup_eq_some_iff.mp found
  rw [equal]
  simp

/-- The free lock tells that nobody spawns and that no stop waits. -/
theorem Disciplined.free (disciplined : Disciplined σ) (free : σ.lock = none) (token : Nat) :
    ∀ operation ∈ σ.requests token, operation.holdsLock = false := by
  intro operation inside
  by_contra holds
  have locked := disciplined.holder token operation inside (by simpa using holds)
  rw [free] at locked
  cases locked

/-- The request that holds the lock is the only one, and only its first operation holds it. -/
theorem Disciplined.sole (disciplined : Disciplined σ) {operation : Operation}
    (here : σ.requests token = operation :: rest) (holds : operation.holdsLock = true) {other : Nat}
    {second : Operation} (inside : second ∈ σ.requests other) (locks : second.holdsLock = true) :
    other = token ∧ second = operation := by
  have first := disciplined.holder token operation (here ▸ List.mem_cons_self ..) holds
  have same := disciplined.holder other second inside locks
  rw [first, Option.some.injEq] at same
  subst same
  refine ⟨rfl, ?_⟩
  rw [here] at inside
  rcases List.mem_cons.mp inside with equal | later
  · exact equal
  · have none := disciplined.first token second (by rwa [here, List.tail_cons])
    rw [locks] at none
    cases none

section Requests

variable {before : Nat → List Operation} {current operation : Operation} {new : List Operation} {moved : Nat}

theorem mem_after (here : before token = current :: rest)
    (inside : operation ∈ Function.update before token (new ++ rest) moved) :
    operation ∈ before moved ∨ (moved = token ∧ operation ∈ new) := by
  by_cases same : moved = token
  · subst same
    rw [Function.update_self] at inside
    rcases List.mem_append.mp inside with fresh | old
    · exact Or.inr ⟨rfl, fresh⟩
    · exact Or.inl (here ▸ List.mem_cons_of_mem _ old)
  · rw [Function.update_of_ne same] at inside
    exact Or.inl inside

theorem tail_after (here : before token = current :: rest)
    (inside : operation ∈ (Function.update before token (new ++ rest) moved).tail) :
    operation ∈ (before moved).tail ∨ (moved = token ∧ operation ∈ new.tail) := by
  by_cases same : moved = token
  · subst same
    rw [Function.update_self] at inside
    rw [here, List.tail_cons]
    cases new with
    | nil => exact Or.inl (List.mem_of_mem_tail inside)
    | cons first others =>
        rcases List.mem_append.mp inside with fresh | old
        · exact Or.inr ⟨rfl, fresh⟩
        · exact Or.inl old
  · rw [Function.update_of_ne same] at inside
    exact Or.inl inside

end Requests

theorem no_holdsLock {operation : Operation} (none : operation.holdsLock = false)
    (holds : operation.holdsLock = true) : False := by
  rw [none] at holds
  cases holds

/-- A start that has found its relationship takes the lock and is about to spawn. -/
theorem Disciplined.locked (disciplined : Disciplined σ) {id : Text} {source : Captured}
    (here : σ.requests token = .start id :: rest) (free : σ.lock = none)
    (absent : σ.isRunning source.id = false) :
    Disciplined ({ σ with lock := some token }.next token ([Operation.spawn source] ++ rest)) where
  keys := disciplined.keys
  fresh := disciplined.fresh
  mapped := disciplined.mapped
  named := disciplined.named
  holder := by
    intro moved other inside holds
    rcases mem_after here inside with old | ⟨rfl, -⟩
    · exact (no_holdsLock (disciplined.free free moved other old) holds).elim
    · rfl
  first := by
    intro moved other inside
    rcases tail_after here inside with old | ⟨-, none⟩
    · exact disciplined.first moved other old
    · cases none
  spawning := by
    intro moved spawning inside
    rcases mem_after here inside with old | ⟨-, same⟩
    · exact (no_holdsLock (disciplined.free free moved _ old) rfl).elim
    · cases List.mem_singleton.mp same
      exact absent

/-- A loop that is neither in the map nor waited for by the holder of the lock. -/
def LeftOver (σ : Server) (handle : Nat) (id : Text) : Prop :=
  σ.Live handle id ∧ (id, handle) ∉ σ.running ∧ ∀ token, .await handle true ∉ σ.requests token

theorem live_spawned {source : Captured} {handle : Nat} {id : Text} :
    (σ.spawned source).Live handle id ↔
      (handle = σ.nextHandle ∧ id = source.id) ∨ (handle ≠ σ.nextHandle ∧ σ.Live handle id) := by
  unfold Live spawned
  by_cases same : handle = σ.nextHandle
  · simp [same, eq_comm]
  · simp [same]

theorem Disciplined.spawned (disciplined : Disciplined σ) {source : Captured}
    (here : σ.requests token = .spawn source :: rest) :
    Disciplined ((σ.spawned source).next token ([] ++ rest)) where
  keys := by
    have absent := disciplined.spawning token source (here ▸ List.mem_cons_self ..)
    refine List.nodup_cons.mpr ⟨?_, disciplined.keys⟩
    intro inside
    obtain ⟨entry, among, equal⟩ := List.mem_map.mp inside
    have known : entry.1 = source.id := equal
    rw [(σ.isRunning_iff _).mpr ⟨entry.2, known ▸ among⟩] at absent
    cases absent
  fresh := by
    intro handle id live
    rcases live_spawned.mp live with ⟨rfl, -⟩ | ⟨-, old⟩
    · exact Nat.lt_succ_self _
    · exact Nat.lt_succ_of_lt (disciplined.fresh handle id old)
  mapped := by
    intro entry inside
    rcases List.mem_cons.mp inside with rfl | old
    · exact Nat.lt_succ_self _
    · exact Nat.lt_succ_of_lt (disciplined.mapped entry old)
  named := by
    intro entry inside id live
    rcases live_spawned.mp live with ⟨equal, same⟩ | ⟨differs, old⟩
    · rcases List.mem_cons.mp inside with rfl | among
      · exact same
      · have below := disciplined.mapped entry among
        omega
    · rcases List.mem_cons.mp inside with rfl | among
      · exact absurd rfl differs
      · exact disciplined.named entry among id old
  holder := by
    intro moved other inside holds
    by_cases same : moved = token
    · subst same
      have tail : other ∈ (σ.requests moved).tail := by
        rw [here]
        simpa [next] using inside
      exact (no_holdsLock (disciplined.first moved other tail) holds).elim
    · rcases mem_after here inside with old | ⟨equal, -⟩
      · exact absurd (disciplined.sole here rfl old holds).1 same
      · exact absurd equal same
  first := by
    intro moved other inside
    rcases tail_after here inside with old | ⟨-, none⟩
    · exact disciplined.first moved other old
    · cases none
  spawning := by
    intro moved spawning inside
    by_cases same : moved = token
    · subst same
      have tail : Operation.spawn spawning ∈ (σ.requests moved).tail := by
        rw [here]
        simpa [next] using inside
      exact (no_holdsLock (disciplined.first moved _ tail) rfl).elim
    · rcases mem_after here inside with old | ⟨equal, -⟩
      · exact absurd (disciplined.sole here rfl old rfl).1 same
      · exact absurd equal same

theorem live_aborted {handle other : Nat} {id : Text} :
    (σ.aborted handle).Live other id ↔ σ.Live other id := by
  unfold Live aborted setLoop
  by_cases same : other = handle
  · subst same
    simp only [Function.update_self, Option.map_eq_some_iff]
    constructor
    · rintro ⟨_, ⟨loop, found, rfl⟩, equal⟩
      exact ⟨loop, found, equal⟩
    · rintro ⟨loop, found, equal⟩
      exact ⟨_, ⟨loop, found, rfl⟩, equal⟩
  · simp only [Function.update_of_ne same]

/-- The state in which a stop waits for the loop that it has aborted. -/
def stopping (σ : Server) (token : Nat) (id : Text) (handle : Nat) : Server :=
  ({ σ with
    running := σ.running.filter fun entry => entry.1 ≠ id
    lock := some token } : Server).aborted handle

theorem Disciplined.stopping (disciplined : Disciplined σ) {id : Text} (handle : Nat)
    (here : σ.requests token = .stop id :: rest) (free : σ.lock = none) :
    Disciplined ((σ.stopping token id handle).next token ([Operation.await handle true] ++ rest)) where
  keys := disciplined.keys.sublist ((List.filter_sublist ..).map _)
  fresh other id live := disciplined.fresh other id (live_aborted.mp live)
  mapped entry inside := disciplined.mapped entry (List.mem_filter.mp inside).1
  named entry inside id live :=
    disciplined.named entry (List.mem_filter.mp inside).1 id (live_aborted.mp live)
  holder := by
    intro moved other inside holds
    rcases mem_after here inside with old | ⟨rfl, -⟩
    · exact (no_holdsLock (disciplined.free free moved other old) holds).elim
    · rfl
  first := by
    intro moved other inside
    rcases tail_after here inside with old | ⟨-, none⟩
    · exact disciplined.first moved other old
    · cases none
  spawning := by
    intro moved source inside
    rcases mem_after here inside with old | ⟨-, same⟩
    · exact (no_holdsLock (disciplined.free free moved _ old) rfl).elim
    · cases List.mem_singleton.mp same

theorem Disciplined.aborting (disciplined : Disciplined σ) {handle : Nat}
    (here : σ.requests token = .abort handle :: rest) :
    Disciplined ((σ.aborted handle).next token ([Operation.await handle false] ++ rest)) where
  keys := disciplined.keys
  fresh other id live := disciplined.fresh other id (live_aborted.mp live)
  mapped := disciplined.mapped
  named entry inside id live := disciplined.named entry inside id (live_aborted.mp live)
  holder := by
    intro moved other inside holds
    rcases mem_after here inside with old | ⟨-, same⟩
    · exact disciplined.holder moved other old holds
    · rw [List.mem_singleton.mp same] at holds
      cases holds
  first := by
    intro moved other inside
    rcases tail_after here inside with old | ⟨-, none⟩
    · exact disciplined.first moved other old
    · cases none
  spawning := by
    intro moved source inside
    rcases mem_after here inside with old | ⟨-, same⟩
    · exact disciplined.spawning moved source old
    · cases List.mem_singleton.mp same

/-- A request that no longer waits for a loop gives the lock back if it holds it. -/
theorem Disciplined.released (disciplined : Disciplined σ) {handle : Nat} {locked : Bool}
    (here : σ.requests token = .await handle locked :: rest) :
    Disciplined ((σ.unlocked locked).next token ([] ++ rest)) := by
  have old : ∀ {moved : Nat} {operation : Operation},
      operation ∈ Function.update σ.requests token ([] ++ rest) moved → operation ∈ σ.requests moved :=
    fun inside => (mem_after here inside).resolve_right fun impossible => List.not_mem_nil impossible.2
  have tails : ∀ {moved : Nat} {operation : Operation},
      operation ∈ (Function.update σ.requests token ([] ++ rest) moved).tail →
        operation ∈ (σ.requests moved).tail :=
    fun inside => (tail_after here inside).resolve_right fun impossible => List.not_mem_nil impossible.2
  cases locked with
  | false =>
      exact { disciplined with
        holder := fun moved operation inside => disciplined.holder moved operation (old inside)
        first := fun moved operation inside => disciplined.first moved operation (tails inside)
        spawning := fun moved source inside => disciplined.spawning moved source (old inside) }
  | true =>
      have none : ∀ moved, ∀ operation ∈ Function.update σ.requests token ([] ++ rest) moved,
          operation.holdsLock = false := by
        intro moved operation inside
        by_contra holds
        have holds : operation.holdsLock = true := by simpa using holds
        have same := (disciplined.sole here rfl (old inside) holds).1
        subst same
        rw [Function.update_self] at inside
        exact no_holdsLock (disciplined.first moved operation (by rwa [here])) holds
      exact { disciplined with
        holder := fun moved operation inside holds => (no_holdsLock (none moved operation inside) holds).elim
        first := fun moved operation inside => disciplined.first moved operation (tails inside)
        spawning := fun moved source inside => (no_holdsLock (none moved _ inside) rfl).elim }

/-- A stop of all loops takes every loop out of the map and then waits for one after the other. -/
theorem Disciplined.drained (disciplined : Disciplined σ) (here : σ.requests token = .drain :: rest)
    (free : σ.lock = none) : Disciplined (({ σ with running := [] } : Server).next token
      ((σ.running.map fun entry => Operation.abort entry.2) ++ rest)) where
  keys := List.nodup_nil
  fresh := disciplined.fresh
  mapped entry inside := (List.not_mem_nil inside).elim
  named entry inside := (List.not_mem_nil inside).elim
  holder := by
    intro moved operation inside holds
    rcases mem_after here inside with old | ⟨-, aborts⟩
    · exact (no_holdsLock (disciplined.free free moved operation old) holds).elim
    · obtain ⟨entry, -, rfl⟩ := List.mem_map.mp aborts
      cases holds
  first := by
    intro moved operation inside
    rcases tail_after here inside with old | ⟨-, aborts⟩
    · exact disciplined.first moved operation old
    · obtain ⟨entry, -, rfl⟩ := List.mem_map.mp (List.mem_of_mem_tail aborts)
      rfl
  spawning := by
    intro moved source inside
    rcases mem_after here inside with old | ⟨-, aborts⟩
    · exact (no_holdsLock (disciplined.free free moved _ old) rfl).elim
    · obtain ⟨entry, -, impossible⟩ := List.mem_map.mp aborts
      cases impossible

/-- One operation of a request keeps the accounts. -/
theorem Disciplined.operate (disciplined : Disciplined σ) {operation : Operation}
    (here : σ.requests token = operation :: rest)
    (taken : operate σ token rest fails moment operation = some after) : Disciplined after := by
  cases operation with
  | start id =>
      simp only [AeordbSync.operate] at taken
      split at taken
      · cases taken
      next free =>
        have nothing := (SameRunner.refl σ).moved [] here rfl (by simp)
        split at taken
        · cases taken
          exact disciplined.undisturbed nothing
        next idle =>
          split at taken
          · cases taken
            exact disciplined.undisturbed nothing
          next source found =>
            cases taken
            refine disciplined.locked here (not_not.mp free) ?_
            have same : source.id = id := by
              unfold startable at found
              split at found
              · cases found
              next relationship present =>
                split at found
                · cases found
                  exact Config.id_of_get present
                · cases found
            rw [same]
            exact Bool.eq_false_iff.mpr fun running => idle (Or.inr running)
  | spawn source =>
      cases taken
      exact disciplined.spawned here
  | stop id =>
      simp only [AeordbSync.operate] at taken
      split at taken
      · cases taken
      next free =>
        split at taken
        · cases taken
          exact disciplined.undisturbed ((SameRunner.refl σ).moved [] here rfl (by simp))
        next handle _ =>
          cases taken
          exact disciplined.stopping handle here (not_not.mp free)
  | abort handle =>
      cases taken
      exact disciplined.aborting here
  | await handle locked =>
      simp only [AeordbSync.operate] at taken
      split at taken
      · cases taken
        exact disciplined.released here
      · cases taken
  | drain =>
      simp only [AeordbSync.operate] at taken
      split at taken
      · cases taken
      next free =>
        cases taken
        exact disciplined.drained here (not_not.mp free)
  | _ => exact disciplined.undisturbed (operate_undisturbed rfl here taken)

/-- A step that moves no request and adds no loop leaves the accounts alone. -/
theorem undisturbed_of_loops (running : after.running = σ.running)
    (nextHandle : after.nextHandle = σ.nextHandle) (lock : after.lock = σ.lock)
    (requests : after.requests = σ.requests) (live : ∀ handle id, after.Live handle id → σ.Live handle id) :
    Undisturbed σ after :=
  ⟨running, nextHandle, lock, live, requests ▸ .stay⟩

theorem live_inPhase {handle other : Nat} {loop : SyncLoop} {phase : LoopPhase} {id : Text}
    (found : σ.loops handle = some loop) (live : (σ.inPhase handle loop phase).Live other id) :
    σ.Live other id := by
  obtain ⟨entry, present, equal⟩ := live
  by_cases same : other = handle
  · subst same
    simp only [inPhase, setLoop, Function.update_self, Option.some.injEq] at present
    exact ⟨loop, found, by rw [← equal, ← present]⟩
  · simp only [inPhase, setLoop, Function.update_of_ne same] at present
    exact ⟨entry, present, equal⟩

theorem live_ended {handle other : Nat} {id : Text} (live : (σ.setLoop handle none).Live other id) :
    σ.Live other id := by
  obtain ⟨entry, present, equal⟩ := live
  by_cases same : other = handle
  · subst same
    simp only [setLoop, Function.update_self] at present
    cases present
  · simp only [setLoop, Function.update_of_ne same] at present
    exact ⟨entry, present, equal⟩

theorem inPhase_undisturbed {handle : Nat} {loop : SyncLoop} {phase : LoopPhase}
    (found : σ.loops handle = some loop) : Undisturbed σ (σ.inPhase handle loop phase) :=
  undisturbed_of_loops rfl rfl rfl rfl fun _ _ => live_inPhase found

theorem setLoop_undisturbed (σ : Server) (handle : Nat) : Undisturbed σ (σ.setLoop handle none) :=
  undisturbed_of_loops rfl rfl rfl rfl fun _ _ => live_ended

theorem SameRunner.undisturbed {base : Server} (same : SameRunner σ base) : Undisturbed σ base :=
  undisturbed_of_loops same.running same.nextHandle same.lock same.requests fun _ _ => same.live

theorem isRequest_plain {operation : Operation} (request : operation.isRequest = true) :
    operation.plain = true := by
  cases operation <;> first | rfl | cases request

theorem sameRunner_guards (σ : Server) (guards : Text → Bool) :
    SameRunner σ { σ with guards := guards } := ⟨rfl, rfl, rfl, rfl, rfl⟩

theorem sameRunner_begun (σ : Server) (kind : SyncKind) (source : Captured) :
    SameRunner σ ((σ.withGuard source.id true).started kind source) := ⟨rfl, rfl, rfl, rfl, rfl⟩

theorem SameRunner.loop {base : Server} (same : SameRunner σ base) {handle : Nat} {loop : SyncLoop}
    (found : σ.loops handle = some loop) : base.loops handle = some loop :=
  (congrFun same.loops handle).trans found

/-- A loop of the next state lived before or is the one that is spawned. -/
theorem live_operate {operation : Operation} {handle : Nat} {id : Text}
    (here : σ.requests token = operation :: rest)
    (taken : AeordbSync.operate σ token rest fails moment operation = some after)
    (live : after.Live handle id) : σ.Live handle id ∨
      (handle = σ.nextHandle ∧ ∃ source, operation = .spawn source ∧ id = source.id) := by
  cases operation with
  | spawn source =>
      cases taken
      rcases live_spawned.mp live with ⟨equal, same⟩ | ⟨-, old⟩
      · exact Or.inr ⟨equal, source, rfl, same⟩
      · exact Or.inl old
  | start id =>
      simp only [AeordbSync.operate] at taken
      repeat' split at taken
      all_goals first
        | cases taken; exact Or.inl live
        | cases taken
  | stop id =>
      simp only [AeordbSync.operate] at taken
      repeat' split at taken
      all_goals first
        | cases taken; exact Or.inl live
        | cases taken; exact Or.inl (live_aborted.mp live)
        | cases taken
  | abort other =>
      cases taken
      exact Or.inl (live_aborted.mp live)
  | await other locked =>
      simp only [AeordbSync.operate] at taken
      split at taken <;> cases taken
      cases locked <;> exact Or.inl live
  | drain =>
      simp only [AeordbSync.operate] at taken
      split at taken <;> cases taken
      exact Or.inl live
  | _ => exact Or.inl ((operate_undisturbed rfl here taken).live handle id live)

theorem live_step {action : Action} {handle : Nat} {id : Text} (stepped : Stepped σ action after)
    (live : after.Live handle id) : σ.Live handle id ∨
      (handle = σ.nextHandle ∧ ∃ token fails moment source rest, action = .advance token fails moment ∧
        σ.requests token = .spawn source :: rest ∧ id = source.id) := by
  cases stepped with
  | received => exact Or.inl live
  | operated here taken =>
      rcases live_operate here taken live with old | ⟨equal, source, rfl, same⟩
      · exact Or.inl old
      · exact Or.inr ⟨equal, _, _, _, source, _, rfl, here, same⟩
  | @timedOut token other locked => cases locked <;> exact Or.inl live
  | queued found => exact Or.inl (live_inPhase found live)
  | left => exact Or.inl (live_ended live)
  | skipped => exact Or.inl live
  | @begun handle loop kind source found =>
      have same := sameRunner_begun σ kind source
      exact Or.inl (same.live (live_inPhase (same.loop found) live))
  | dropped guards => exact Or.inl ((sameRunner_guards σ guards).live (live_ended live))
  | wrote => exact Or.inl live
  | finishedLoop guards found => exact Or.inl ((sameRunner_guards σ guards).live (live_inPhase found live))
  | finishedRequest => exact Or.inl live

/-- A start that spawns finds no loop of its relationship that a stop has left over. -/
def SpawnsAlone (σ : Server) (token : Nat) : Prop :=
  ∀ source rest, σ.requests token = .spawn source :: rest → ∀ handle, ¬ σ.LeftOver handle source.id

/-- No loop lives for a relationship that is about to be started. -/
theorem Disciplined.spawn_absent (disciplined : Disciplined σ) {source : Captured}
    (here : σ.requests token = .spawn source :: rest) (alone : σ.SpawnsAlone token) (handle : Nat) :
    ¬ σ.Live handle source.id := by
  intro live
  refine alone source rest here handle ⟨live, fun inside => ?_, fun other awaited => ?_⟩
  · have absent := disciplined.spawning token source (here ▸ List.mem_cons_self ..)
    rw [(σ.isRunning_iff _).mpr ⟨handle, inside⟩] at absent
    cases absent
  · have same := (disciplined.sole here rfl awaited rfl).2
    cases same

/-- No relationship has two loops. -/
def Sole (σ : Server) : Prop :=
  ∀ first second id, σ.Live first id → σ.Live second id → first = second

def Orderly (σ : Server) : Action → Prop
  | .advance token _ _ => σ.SpawnsAlone token
  | _ => True

/-- An orderly step gives no relationship a second loop. -/
theorem Sole.step {action : Action} (sole : Sole σ) (disciplined : Disciplined σ)
    (orderly : σ.Orderly action) (stepped : Stepped σ action after) : Sole after := by
  intro first second id left right
  have alone : ∀ {token : Nat} {fails : Bool} {moment : Int} {source : Captured} {rest : List Operation},
      action = .advance token fails moment → σ.requests token = .spawn source :: rest → id = source.id →
        ∀ handle, ¬ σ.Live handle id := by
    rintro token fails moment source rest rfl here rfl handle
    exact disciplined.spawn_absent here orderly handle
  rcases live_step stepped left with old | ⟨one, _, _, _, _, _, acts, here, same⟩
  · rcases live_step stepped right with also | ⟨-, _, _, _, _, _, acts, here, same⟩
    · exact sole first second id old also
    · exact absurd old (alone acts here same first)
  · rcases live_step stepped right with also | ⟨two, -⟩
    · exact absurd also (alone acts here same second)
    · rw [one, two]

/-- Every step keeps the accounts of the loops. -/
theorem Disciplined.step {action : Action} (disciplined : Disciplined σ)
    (stepped : Stepped σ action after) : Disciplined after := by
  cases stepped with
  | received empty request =>
      exact disciplined.undisturbed ⟨rfl, rfl, rfl, fun _ _ => id, .receive empty (isRequest_plain request)⟩
  | operated here taken => exact disciplined.operate here taken
  | timedOut here => exact disciplined.released here
  | queued found => exact disciplined.undisturbed (inPhase_undisturbed found)
  | left found => exact disciplined.undisturbed (setLoop_undisturbed σ _)
  | skipped => exact disciplined
  | @begun handle loop kind source found =>
      have same := sameRunner_begun σ kind source
      exact (disciplined.undisturbed same.undisturbed).undisturbed (inPhase_undisturbed (same.loop found))
  | dropped guards found =>
      exact (disciplined.undisturbed (sameRunner_guards σ guards).undisturbed).undisturbed
        (setLoop_undisturbed _ _)
  | wrote => exact disciplined.undisturbed (sameRunner_setStore ..).undisturbed
  | finishedLoop guards found =>
      exact (disciplined.undisturbed (sameRunner_guards σ guards).undisturbed).undisturbed
        (inPhase_undisturbed found)
  | finishedRequest guards here =>
      exact disciplined.undisturbed ((sameRunner_guards σ guards).moved [] here rfl (by simp))

end Server

end AeordbSync

import AeordbSync.Server.Discipline

namespace AeordbSync
open Characters OsPath Server

variable {σ after : Server} {token : Nat} {rest : List Operation} {fails : Bool} {moment : Int}
  {operation : Operation}

theorem manual_of_isRequest (request : operation.isRequest = true) (inFlight : Bool) :
    operation.manual inFlight = none := by
  cases operation <;> first | rfl | cases request

/-- The copies with which a loop may begin a sync or, where those in flight count, goes on. -/
def SyncLoop.copies (loop : SyncLoop) (inFlight : Bool) : List Captured :=
  match loop.phase with
  | .idle => [loop.source]
  | .queued _ source => [loop.source, source]
  | .syncing _ source => if inFlight then [loop.source, source] else [loop.source]

namespace Server

def InLoop (σ : Server) (inFlight : Bool) (handle : Nat) (source : Captured) : Prop :=
  ∃ loop, σ.loops handle = some loop ∧ source ∈ loop.copies inFlight

def InManual (σ : Server) (inFlight : Bool) (token : Nat) (source : Captured) : Prop :=
  ∃ operation ∈ σ.requests token, operation.manual inFlight = some source

/-- Some sync that may begin or, where those in flight count, goes on works with the copy. -/
def InUse (σ : Server) (inFlight : Bool) (source : Captured) : Prop :=
  (∃ handle, σ.InLoop inFlight handle source) ∨ (∃ token, σ.InManual inFlight token source) ∨
    ∃ token, .spawn source ∈ σ.requests token

/-- Where the copies of the next state come from. -/
structure CopiesStep (σ after : Server) : Prop where
  manual : ∀ inFlight token source, after.InManual inFlight token source →
    σ.InManual inFlight token source ∨ σ.CurrentCopy source
  spawns : ∀ token source, .spawn source ∈ after.requests token →
    .spawn source ∈ σ.requests token ∨ (σ.CurrentCopy source ∧ σ.lock = none)
  loops : ∀ inFlight handle source, after.InLoop inFlight handle source →
    σ.InLoop inFlight handle source ∨ σ.CurrentCopy source ∨
      (handle = σ.nextHandle ∧ ∃ token, .spawn source ∈ σ.requests token)
  starts : after.starts = σ.starts ∨
    ∃ kind source, σ.InUse false source ∧ after.starts = ⟨kind, source, σ.settled source.id⟩ :: σ.starts

/-- A copy that is in use was in use before or has just been read. -/
theorem CopiesStep.inUse (copies : CopiesStep σ after) {inFlight : Bool} {source : Captured}
    (used : after.InUse inFlight source) : σ.InUse inFlight source ∨ σ.CurrentCopy source := by
  rcases used with ⟨handle, inside⟩ | ⟨token, inside⟩ | ⟨token, inside⟩
  · rcases copies.loops inFlight handle source inside with old | current | ⟨-, token, spawn⟩
    · exact Or.inl (Or.inl ⟨handle, old⟩)
    · exact Or.inr current
    · exact Or.inl (Or.inr (Or.inr ⟨token, spawn⟩))
  · exact (copies.manual inFlight token source inside).imp_left fun old => Or.inr (Or.inl ⟨token, old⟩)
  · rcases copies.spawns token source inside with old | ⟨current, -⟩
    · exact Or.inl (Or.inr (Or.inr ⟨token, old⟩))
    · exact Or.inr current

section Moves

variable {base : Server} {new : List Operation}

theorem inManual_moved {operations : List Operation} (here : σ.requests token = operation :: rest)
    (requests : base.requests = Function.update σ.requests token operations)
    (origin : ∀ other ∈ operations, other ∈ rest ∨ ∀ inFlight source, other.manual inFlight = some source →
      operation.manual inFlight = some source ∨ σ.CurrentCopy source)
    {inFlight : Bool} {moved : Nat} {source : Captured} (inside : base.InManual inFlight moved source) :
    σ.InManual inFlight moved source ∨ σ.CurrentCopy source := by
  obtain ⟨other, among, copy⟩ := inside
  rw [requests] at among
  by_cases same : moved = token
  · subst same
    rw [Function.update_self] at among
    rcases origin other among with old | derived
    · exact Or.inl ⟨other, here ▸ List.mem_cons_of_mem _ old, copy⟩
    · exact (derived inFlight source copy).imp_left fun mine => ⟨operation, here ▸ List.mem_cons_self .., mine⟩
  · rw [Function.update_of_ne same] at among
    exact Or.inl ⟨other, among, copy⟩

theorem spawn_moved {operations : List Operation} (here : σ.requests token = operation :: rest)
    (requests : base.requests = Function.update σ.requests token operations) {source : Captured}
    (origin : .spawn source ∈ operations → .spawn source ∈ rest ∨ (σ.CurrentCopy source ∧ σ.lock = none))
    {moved : Nat} (inside : .spawn source ∈ base.requests moved) :
    .spawn source ∈ σ.requests moved ∨ (σ.CurrentCopy source ∧ σ.lock = none) := by
  rw [requests] at inside
  by_cases same : moved = token
  · subst same
    rw [Function.update_self] at inside
    exact (origin inside).imp_left fun old => here ▸ List.mem_cons_of_mem _ old
  · rw [Function.update_of_ne same] at inside
    exact Or.inl inside

theorem inLoop_of_loops (loops : after.loops = σ.loops) {inFlight : Bool} {handle : Nat} {source : Captured}
    (inside : after.InLoop inFlight handle source) : σ.InLoop inFlight handle source := by
  unfold InLoop at inside
  rwa [loops] at inside

theorem inLoop_aborted {inFlight : Bool} {handle other : Nat} {source : Captured}
    (inside : (σ.aborted handle).InLoop inFlight other source) : σ.InLoop inFlight other source := by
  obtain ⟨loop, found, copy⟩ := inside
  by_cases same : other = handle
  · subst same
    simp only [aborted, setLoop, Function.update_self, Option.map_eq_some_iff] at found
    obtain ⟨old, present, rfl⟩ := found
    exact ⟨old, present, copy⟩
  · simp only [aborted, setLoop, Function.update_of_ne same] at found
    exact ⟨loop, found, copy⟩

theorem inLoop_spawned {source other : Captured} {inFlight : Bool} {handle : Nat}
    (inside : (σ.spawned source).InLoop inFlight handle other) :
    σ.InLoop inFlight handle other ∨ (handle = σ.nextHandle ∧ other = source) := by
  obtain ⟨loop, found, copy⟩ := inside
  by_cases same : handle = σ.nextHandle
  · subst same
    simp only [spawned, Function.update_self, Option.some.injEq] at found
    subst found
    exact Or.inr ⟨rfl, by simpa [SyncLoop.copies] using copy⟩
  · simp only [spawned, Function.update_of_ne same] at found
    exact Or.inl ⟨loop, found, copy⟩

/-- A request that goes on while no loop changes. -/
theorem CopiesStep.moved (here : σ.requests token = operation :: rest)
    (requests : base.requests = Function.update σ.requests token (new ++ rest))
    (derived : ∀ other ∈ new, σ.Derived operation other) (loops : base.loops = σ.loops)
    (starts : base.starts = σ.starts ∨ ∃ kind source, σ.InUse false source ∧
      base.starts = ⟨kind, source, σ.settled source.id⟩ :: σ.starts) : CopiesStep σ base where
  manual _ _ _ inside := inManual_moved here requests (fun other among =>
    (List.mem_append.mp among).elim (fun fresh => Or.inr (derived other fresh).2) Or.inl) inside
  spawns _ source inside := spawn_moved here requests (fun among =>
    (List.mem_append.mp among).elim (fun fresh => by cases (derived _ fresh).1) Or.inl) inside
  loops _ _ _ inside := Or.inl (inLoop_of_loops loops inside)
  starts := starts

/-- A request that no longer waits for a loop. -/
theorem CopiesStep.released {handle : Nat} {locked : Bool}
    (here : σ.requests token = .await handle locked :: rest) :
    CopiesStep σ ((σ.unlocked locked).next token rest) := by
  have requests : ((σ.unlocked locked).next token rest).requests =
      Function.update σ.requests token ([] ++ rest) := by
    cases locked <;> rfl
  have loops : ((σ.unlocked locked).next token rest).loops = σ.loops := by
    cases locked <;> rfl
  have starts : ((σ.unlocked locked).next token rest).starts = σ.starts := by
    cases locked <;> rfl
  exact .moved here requests derived_nil loops (Or.inl starts)

end Moves

theorem currentCopy_of_startable {id : Text} {source : Captured} (found : startable σ id = some source) :
    σ.CurrentCopy source ∧ source.id = id := by
  unfold startable at found
  split at found
  · cases found
  next relationship present =>
    have known := Config.id_of_get present
    split at found
    next fits =>
      cases found
      exact ⟨⟨known.symm ▸ present, fits.1, by rw [Captured.id, known]⟩, known⟩
    · cases found

theorem unlocked_starts (σ : Server) (locked : Bool) : (σ.unlocked locked).starts = σ.starts := by
  cases locked <;> rfl

theorem updatedBy_starts (σ : Server) (id : Text) (request : UpdateSyncRelationshipRequest) :
    (σ.updatedBy id request).starts = σ.starts := by
  unfold updatedBy
  split <;> rfl

/-- Only a manual sync that is called begins with a step of a request. -/
theorem operate_starts (taken : operate σ token rest fails moment operation = some after) :
    after.starts = σ.starts ∨ ∃ source, operation = .call source ∧
      after.starts = ⟨.full, source, σ.settled source.id⟩ :: σ.starts := by
  cases operation with
  | call source =>
      cases taken
      exact Or.inr ⟨source, rfl, rfl⟩
  | persist id request existing wasRunning =>
      simp only [operate] at taken
      split at taken <;> cases taken
      · exact Or.inl rfl
      · exact Or.inl (updatedBy_starts ..)
  | await handle locked =>
      simp only [operate] at taken
      split at taken <;> cases taken
      exact Or.inl (unlocked_starts ..)
  | syncing source => cases taken
  | _ =>
      refine Or.inl ?_
      simp only [operate] at taken
      repeat' split at taken
      all_goals first
        | cases taken; rfl
        | cases taken

theorem operate_copies (here : σ.requests token = operation :: rest)
    (taken : operate σ token rest fails moment operation = some after) : CopiesStep σ after := by
  have starts : after.starts = σ.starts ∨ ∃ kind source, σ.InUse false source ∧
      after.starts = ⟨kind, source, σ.settled source.id⟩ :: σ.starts := by
    rcases operate_starts taken with same | ⟨source, called, more⟩
    · exact Or.inl same
    · refine Or.inr ⟨.full, source, Or.inr (Or.inl ⟨token, operation, here ▸ List.mem_cons_self .., ?_⟩), more⟩
      rw [called]
      rfl
  have nothing : CopiesStep σ (σ.next token ([] ++ rest)) :=
    .moved here rfl derived_nil rfl (Or.inl rfl)
  cases operation with
  | start id =>
      simp only [operate] at taken
      split at taken
      · cases taken
      next free =>
        split at taken
        · cases taken
          exact nothing
        · split at taken
          · cases taken
            exact nothing
          next source found =>
            cases taken
            refine ⟨fun inFlight moved copy => inManual_moved here rfl fun other among => ?_,
              fun moved copy => spawn_moved here rfl fun among => ?_, fun _ _ _ => Or.inl, starts⟩
            · rcases List.mem_cons.mp among with rfl | old
              · exact Or.inr fun _ copy impossible => by cases impossible
              · exact Or.inl old
            · rcases List.mem_cons.mp among with equal | old
              · cases equal
                exact Or.inr ⟨(currentCopy_of_startable found).1, not_not.mp free⟩
              · exact Or.inl old
  | spawn source =>
      cases taken
      refine ⟨fun inFlight moved copy => inManual_moved here rfl fun other => Or.inl,
        fun moved copy => spawn_moved here rfl Or.inl, fun inFlight handle copy inside => ?_, starts⟩
      rcases inLoop_spawned inside with old | ⟨equal, rfl⟩
      · exact Or.inl old
      · exact Or.inr (Or.inr ⟨equal, token, here ▸ List.mem_cons_self ..⟩)
  | stop id =>
      simp only [operate] at taken
      split at taken
      · cases taken
      · split at taken
        · cases taken
          exact nothing
        next handle _ =>
          cases taken
          refine ⟨fun inFlight moved copy => inManual_moved here rfl fun other among => ?_,
            fun moved copy => spawn_moved here rfl fun among => ?_,
            fun inFlight other copy inside => Or.inl (inLoop_aborted inside), starts⟩
          · rcases List.mem_cons.mp among with rfl | old
            · exact Or.inr fun _ copy impossible => by cases impossible
            · exact Or.inl old
          · exact Or.inl ((List.mem_cons.mp among).resolve_left fun impossible => by cases impossible)
  | abort handle =>
      cases taken
      refine ⟨fun inFlight moved copy => inManual_moved here rfl fun other among => ?_,
        fun moved copy => spawn_moved here rfl fun among => ?_,
        fun inFlight other copy inside => Or.inl (inLoop_aborted inside), starts⟩
      · rcases List.mem_cons.mp among with rfl | old
        · exact Or.inr fun _ copy impossible => by cases impossible
        · exact Or.inl old
      · exact Or.inl ((List.mem_cons.mp among).resolve_left fun impossible => by cases impossible)
  | await handle locked =>
      simp only [operate] at taken
      split at taken
      · cases taken
        exact .released here
      · cases taken
  | drain =>
      simp only [operate] at taken
      split at taken
      · cases taken
      · cases taken
        refine ⟨fun inFlight moved copy => inManual_moved here rfl fun other among => ?_,
          fun moved copy => spawn_moved here rfl fun among => ?_, fun _ _ _ => Or.inl, starts⟩
        · rcases List.mem_append.mp among with aborts | old
          · obtain ⟨entry, -, rfl⟩ := List.mem_map.mp aborts
            exact Or.inr fun _ copy impossible => by cases impossible
          · exact Or.inl old
        · rcases List.mem_append.mp among with aborts | old
          · obtain ⟨entry, -, impossible⟩ := List.mem_map.mp aborts
            cases impossible
          · exact Or.inl old
  | _ =>
      obtain ⟨base, new, same, derived, rfl⟩ := operate_ordinary rfl taken
      have requests : (base.next token (new ++ rest)).requests =
          Function.update σ.requests token (new ++ rest) := by
        simp only [next, same.requests]
      exact .moved here requests derived same.loops starts

/-- A step that changes no request and begins no sync. -/
theorem CopiesStep.of_loops (requests : after.requests = σ.requests) (starts : after.starts = σ.starts)
    (loops : ∀ inFlight handle source, after.InLoop inFlight handle source →
      σ.InLoop inFlight handle source ∨ σ.CurrentCopy source) :
    CopiesStep σ after where
  manual inFlight token source inside := by
    unfold InManual at inside
    rw [requests] at inside
    exact Or.inl inside
  spawns token source inside := Or.inl (requests ▸ inside)
  loops inFlight handle source inside := (loops inFlight handle source inside).imp_right Or.inl
  starts := Or.inl starts

theorem inLoop_inPhase {inFlight : Bool} {handle other : Nat} {loop : SyncLoop} {phase : LoopPhase}
    {source : Captured} (inside : (σ.inPhase handle loop phase).InLoop inFlight other source) :
    (other = handle ∧ source ∈ SyncLoop.copies { loop with phase := phase } inFlight) ∨
      σ.InLoop inFlight other source := by
  obtain ⟨entry, found, copy⟩ := inside
  by_cases same : other = handle
  · subst same
    simp only [inPhase, setLoop, Function.update_self, Option.some.injEq] at found
    exact Or.inl ⟨rfl, found ▸ copy⟩
  · simp only [inPhase, setLoop, Function.update_of_ne same] at found
    exact Or.inr ⟨entry, found, copy⟩

theorem inLoop_ended {inFlight : Bool} {handle other : Nat} {source : Captured}
    (inside : (σ.setLoop handle none).InLoop inFlight other source) : σ.InLoop inFlight other source := by
  obtain ⟨entry, found, copy⟩ := inside
  by_cases same : other = handle
  · subst same
    simp only [setLoop, Function.update_self] at found
    cases found
  · simp only [setLoop, Function.update_of_ne same] at found
    exact ⟨entry, found, copy⟩

theorem source_mem_copies (loop : SyncLoop) (inFlight : Bool) : loop.source ∈ loop.copies inFlight := by
  unfold SyncLoop.copies
  split
  · simp
  · simp
  · split <;> simp

end Server

theorem Stepped.copies {action : Action} (stepped : Stepped σ action after) : CopiesStep σ after := by
  cases stepped with
  | @received token operation empty request =>
      refine ⟨fun inFlight moved source inside => ?_, fun moved source inside => ?_, fun _ _ _ => Or.inl, Or.inl rfl⟩
      · obtain ⟨other, among, copy⟩ := inside
        by_cases same : moved = token
        · subst same
          simp only [next, Function.update_self, List.mem_singleton] at among
          rw [among, manual_of_isRequest request] at copy
          cases copy
        · simp only [next, Function.update_of_ne same] at among
          exact Or.inl ⟨other, among, copy⟩
      · by_cases same : moved = token
        · subst same
          simp only [next, Function.update_self, List.mem_singleton] at inside
          subst inside
          cases request
        · simp only [next, Function.update_of_ne same] at inside
          exact Or.inl inside
  | operated here taken => exact operate_copies here taken
  | timedOut here => exact .released here
  | @queued action handle loop kind source found idle origin =>
      refine .of_loops rfl rfl fun inFlight other copy inside => ?_
      rcases inLoop_inPhase inside with ⟨rfl, among⟩ | old
      · simp only [SyncLoop.copies, List.mem_cons, List.not_mem_nil, or_false] at among
        have own : σ.InLoop inFlight other loop.source := ⟨loop, found, source_mem_copies loop inFlight⟩
        rcases among with rfl | rfl
        · exact Or.inl own
        · rcases origin with rfl | ⟨relationship, present, enabled, rfl⟩
          · exact Or.inl own
          · have known := Config.id_of_get present
            exact Or.inr ⟨known.symm ▸ present, enabled, by rw [Captured.id, known]⟩
      · exact Or.inl old
  | left found => exact .of_loops rfl rfl fun _ _ _ inside => Or.inl (inLoop_ended inside)
  | skipped => exact .of_loops rfl rfl fun _ _ _ => Or.inl
  | @begun handle loop kind source found phase =>
      have mine : ∀ inFlight, ∀ copy ∈ SyncLoop.copies { loop with phase := .syncing kind source } inFlight,
          copy ∈ loop.copies inFlight := by
        intro inFlight copy among
        cases inFlight
        · exact List.mem_singleton.mp among ▸ source_mem_copies loop false
        · simpa [SyncLoop.copies, phase] using among
      have queued : source ∈ loop.copies false := by simp [SyncLoop.copies, phase]
      refine ⟨fun _ _ _ => Or.inl, fun _ _ => Or.inl, fun inFlight other copy inside => ?_,
        Or.inr ⟨kind, source, Or.inl ⟨handle, loop, found, queued⟩, rfl⟩⟩
      rcases inLoop_inPhase inside with ⟨rfl, among⟩ | old
      · exact Or.inl ⟨loop, found, mine inFlight copy among⟩
      · exact Or.inl old
  | dropped guards found => exact .of_loops rfl rfl fun _ _ _ inside => Or.inl (inLoop_ended inside)
  | wrote => exact .of_loops rfl rfl fun _ _ _ => Or.inl
  | @finishedLoop handle loop guards found =>
      refine .of_loops rfl rfl fun inFlight other copy inside => ?_
      rcases inLoop_inPhase inside with ⟨rfl, among⟩ | old
      · simp only [SyncLoop.copies, List.mem_singleton] at among
        exact Or.inl ⟨loop, found, among ▸ source_mem_copies loop inFlight⟩
      · exact Or.inl old
  | @finishedRequest token source rest guards here =>
      have requests : ({ σ with guards := guards }.next token rest).requests =
          Function.update σ.requests token ([] ++ rest) := rfl
      exact .moved here requests derived_nil rfl (Or.inl rfl)

end AeordbSync

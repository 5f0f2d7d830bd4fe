import AeordbSync.Reference
import AeordbSync.Server.Books
import AeordbSync.Server.Running

namespace AeordbSync
open Characters OsPath Server

variable {σ base after : Server} {token : Nat} {rest : List Operation} {fails : Bool} {moment : Int}
  {operation : Operation} {id : Text} {version : Nat}

namespace Server

/-- The loops work with copies of their own relationships. -/
def Coherent (σ : Server) : Prop :=
  ∀ handle loop, σ.loops handle = some loop → ∀ source ∈ loop.copies true, source.id = loop.id

theorem copies_true {loop : SyncLoop} {inFlight : Bool} {source : Captured}
    (among : source ∈ loop.copies inFlight) : source ∈ loop.copies true := by
  obtain ⟨own, phase, aborted⟩ := loop
  cases inFlight with
  | true => exact among
  | false =>
      cases phase with
      | syncing kind copy => exact List.mem_cons.mpr (Or.inl (List.mem_singleton.mp among))
      | _ => exact among

theorem Coherent.live (coherent : Coherent σ) {inFlight : Bool} {handle : Nat} {source : Captured}
    (inside : σ.InLoop inFlight handle source) : σ.Live handle source.id := by
  obtain ⟨loop, found, among⟩ := inside
  exact ⟨loop, found, (coherent handle loop found source (copies_true among)).symm⟩

theorem Coherent.of_loops (coherent : Coherent σ) (loops : after.loops = σ.loops) : Coherent after := by
  intro handle loop found
  exact coherent handle loop (loops ▸ found)

theorem Coherent.inPhase (coherent : Coherent σ) {handle : Nat} {loop : SyncLoop} {phase : LoopPhase}
    (own : ∀ source ∈ SyncLoop.copies { loop with phase := phase } true, source.id = loop.id) :
    Coherent (σ.inPhase handle loop phase) := by
  intro other entry found source among
  by_cases same : other = handle
  · subst same
    simp only [Server.inPhase, setLoop, Function.update_self, Option.some.injEq] at found
    subst found
    exact own source among
  · simp only [Server.inPhase, setLoop, Function.update_of_ne same] at found
    exact coherent other entry found source among

theorem Coherent.ended (coherent : Coherent σ) (handle : Nat) : Coherent (σ.setLoop handle none) := by
  intro other entry found
  by_cases same : other = handle
  · subst same
    simp only [setLoop, Function.update_self] at found
    cases found
  · simp only [setLoop, Function.update_of_ne same] at found
    exact coherent other entry found

theorem Coherent.aborted (coherent : Coherent σ) (handle : Nat) : Coherent (σ.aborted handle) := by
  intro other entry found
  by_cases same : other = handle
  · subst same
    simp only [Server.aborted, setLoop, Function.update_self, Option.map_eq_some_iff] at found
    obtain ⟨old, present, rfl⟩ := found
    exact coherent other old present
  · simp only [Server.aborted, setLoop, Function.update_of_ne same] at found
    exact coherent other entry found

theorem Coherent.spawned (coherent : Coherent σ) (source : Captured) : Coherent (σ.spawned source) := by
  intro other entry found copy among
  by_cases same : other = σ.nextHandle
  · subst same
    simp only [Server.spawned, Function.update_self, Option.some.injEq] at found
    subst found
    have equal : copy = source := by simpa [SyncLoop.copies] using among
    rw [equal]
  · simp only [Server.spawned, Function.update_of_ne same] at found
    exact coherent other entry found copy among

theorem Coherent.operate (coherent : Coherent σ)
    (taken : AeordbSync.operate σ token rest fails moment operation = some after) : Coherent after := by
  cases operation with
  | spawn source =>
      cases taken
      exact coherent.spawned source
  | abort handle =>
      cases taken
      exact coherent.aborted handle
  | stop id =>
      simp only [AeordbSync.operate] at taken
      split at taken
      · cases taken
      · split at taken
        · cases taken
          exact coherent
        next handle _ =>
          cases taken
          have kept : Coherent { σ with
            running := σ.running.filter fun entry => entry.1 ≠ id, lock := some token } := coherent
          exact kept.aborted handle
  | await handle locked =>
      simp only [AeordbSync.operate] at taken
      split at taken <;> cases taken
      cases locked <;> exact coherent
  | start id =>
      simp only [AeordbSync.operate] at taken
      repeat' split at taken
      all_goals first
        | cases taken; exact coherent
        | cases taken
  | drain =>
      simp only [AeordbSync.operate] at taken
      split at taken <;> cases taken
      exact coherent
  | _ =>
      obtain ⟨base, new, same, -, rfl⟩ := operate_ordinary rfl taken
      exact coherent.of_loops same.loops

theorem Coherent.step {action : Action} (coherent : Coherent σ) (stepped : Stepped σ action after) :
    Coherent after := by
  cases stepped with
  | received => exact coherent
  | operated here taken => exact coherent.operate taken
  | @timedOut token handle locked => cases locked <;> exact coherent
  | @queued action handle loop kind source found idle origin =>
      refine coherent.inPhase fun copy among => ?_
      simp only [SyncLoop.copies, List.mem_cons, List.not_mem_nil, or_false] at among
      rcases among with rfl | rfl
      · rfl
      · rcases origin with rfl | ⟨relationship, present, -, rfl⟩
        · rfl
        · exact Config.id_of_get present
  | left => exact coherent.ended _
  | skipped => exact coherent
  | @begun handle loop kind source found phase =>
      have kept : Coherent ((σ.withGuard source.id true).started kind source) := coherent
      refine kept.inPhase fun copy among => coherent handle loop found copy ?_
      simpa [SyncLoop.copies, phase] using among
  | dropped guards =>
      have kept : Coherent { σ with guards := guards } := coherent
      exact kept.ended _
  | wrote => exact coherent
  | finishedLoop guards =>
      have kept : Coherent { σ with guards := guards } := coherent
      exact kept.inPhase fun copy among => by rw [List.mem_singleton.mp among]
  | finishedRequest => exact coherent

/-- Every sync that may still begin has a copy that is at least as new as the version. -/
def UpToDate (σ : Server) (id : Text) (version : Nat) : Prop :=
  ∀ source, σ.InUse false source → source.id = id → version ≤ source.version

def ManualUpToDate (σ : Server) (id : Text) (version : Nat) : Prop :=
  ∀ token source, σ.InManual false token source → source.id = id → version ≤ source.version

/-- What is still to be done before the older copies are gone: nothing, to stop the loop that has
them, or to wait for it. -/
inductive Cleared (σ : Server) (id : Text) (version : Nat) : List Operation → Prop
  | now {operations : List Operation} (newer : σ.UpToDate id version) : Cleared σ id version operations
  | stop {rest : List Operation} (manual : σ.ManualUpToDate id version) :
      Cleared σ id version (.stop id :: rest)
  | await {handle : Nat} {rest : List Operation} (manual : σ.ManualUpToDate id version)
      (spawns : ∀ token source, .spawn source ∈ σ.requests token → source.id = id → version ≤ source.version)
      (loops : ∀ other source, σ.InLoop false other source → source.id = id → other ≠ handle →
        version ≤ source.version) : Cleared σ id version (.await handle true :: rest)

theorem CurrentCopy.newer {source : Captured} (current : σ.CurrentCopy source) (mine : source.id = id)
    (past : version ≤ σ.versions id) : version ≤ source.version := by
  rw [current.2.2, mine]
  exact past

theorem UpToDate.kept (newer : σ.UpToDate id version) (copies : CopiesStep σ after)
    (past : version ≤ σ.versions id) : after.UpToDate id version := by
  intro source used mine
  rcases copies.inUse used with old | current
  · exact newer source old mine
  · exact current.newer mine past

theorem ManualUpToDate.kept (newer : σ.ManualUpToDate id version) (copies : CopiesStep σ after)
    (past : version ≤ σ.versions id) : after.ManualUpToDate id version := by
  intro token source inside mine
  rcases copies.manual false token source inside with old | current
  · exact newer token source old mine
  · exact current.newer mine past

theorem Cleared.kept {operations : List Operation} (cleared : σ.Cleared id version operations)
    (copies : CopiesStep σ after) (past : version ≤ σ.versions id) :
    after.Cleared id version operations := by
  cases cleared with
  | now newer => exact .now (newer.kept copies past)
  | stop manual => exact .stop (manual.kept copies past)
  | @await handle rest manual spawns loops =>
      refine .await (manual.kept copies past) (fun token source inside mine => ?_)
        fun other source inside mine away => ?_
      · rcases copies.spawns token source inside with old | ⟨current, -⟩
        · exact spawns token source old mine
        · exact current.newer mine past
      · rcases copies.loops false other source inside with old | current | ⟨-, token, spawn⟩
        · exact loops other source old mine away
        · exact current.newer mine past
        · exact spawns token source spawn mine

/-- Only a stop and a wait that holds the lock leave older copies to what follows. -/
def waits : Operation → Bool
  | .stop _ => true
  | .await _ locked => locked
  | _ => false

theorem Cleared.newer (cleared : σ.Cleared id version (operation :: rest)) (calm : waits operation = false) :
    σ.UpToDate id version := by
  cases cleared with
  | now newer => exact newer
  | stop => cases calm
  | await => cases calm

/-- When the loop is gone for which the request has waited, so are the older copies. -/
theorem Cleared.released {handle : Nat} {locked : Bool}
    (cleared : σ.Cleared id version (.await handle locked :: rest)) (gone : σ.loops handle = none) :
    σ.UpToDate id version := by
  cases cleared with
  | now newer => exact newer
  | await manual spawns loops =>
      rintro source (⟨other, inside⟩ | ⟨token, inside⟩ | ⟨token, inside⟩) mine
      · refine loops other source inside mine fun same => ?_
        obtain ⟨loop, found, -⟩ := inside
        rw [same, gone] at found
        cases found
      · exact manual token source inside mine
      · exact spawns token source inside mine

/-- A loop with an older copy is behind the entry of the map that a stop takes out. -/
theorem behind_entry (disciplined : Disciplined σ) (coherent : Coherent σ) (free : σ.lock = none)
    (whole : ∀ handle, ¬ σ.LeftOver handle id) {handle : Nat} {source : Captured}
    (inside : σ.InLoop false handle source) (mine : source.id = id) : (id, handle) ∈ σ.running := by
  by_contra outside
  refine whole handle ⟨mine ▸ coherent.live inside, outside, fun token waiting => ?_⟩
  exact no_holdsLock (disciplined.free free token _ waiting) rfl

theorem no_spawn (disciplined : Disciplined σ) (free : σ.lock = none) (token : Nat) (source : Captured) :
    .spawn source ∉ σ.requests token :=
  fun inside => no_holdsLock (disciplined.free free token _ inside) rfl

/-- A stop that finds no entry finds no older copy either. -/
theorem Cleared.unmapped {owedId : Text} (cleared : σ.Cleared owedId version (.stop id :: rest))
    (disciplined : Disciplined σ) (coherent : Coherent σ) (free : σ.lock = none)
    (whole : ∀ handle, ¬ σ.LeftOver handle id) (absent : σ.running.lookup id = none) :
    σ.UpToDate owedId version := by
  cases cleared with
  | now newer => exact newer
  | stop manual =>
      rintro source (⟨handle, inside⟩ | ⟨token, inside⟩ | ⟨token, inside⟩) mine
      · have entry := behind_entry disciplined coherent free whole inside mine
        have running := (σ.isRunning_iff id).mpr ⟨handle, entry⟩
        rw [isRunning, absent] at running
        cases running
      · exact manual token source inside mine
      · exact absurd inside (no_spawn disciplined free token source)

/-- The only loop with older copies is the one that the stop has found. -/
theorem Cleared.stopping {owedId : Text} (cleared : σ.Cleared owedId version (.stop id :: rest))
    (disciplined : Disciplined σ) (coherent : Coherent σ) (free : σ.lock = none)
    (whole : ∀ handle, ¬ σ.LeftOver handle id) {handle : Nat}
    (found : σ.running.lookup id = some handle) (later : List Operation) :
    σ.Cleared owedId version (.await handle true :: later) := by
  cases cleared with
  | now newer => exact .now newer
  | stop manual =>
      refine .await manual (fun token source inside => absurd inside (no_spawn disciplined free token source))
        fun other source inside mine away => absurd ?_ away
      have entry := behind_entry disciplined coherent free whole inside mine
      have equal := List.inj_on_of_nodup_map disciplined.keys entry (mem_running_of_lookup found) rfl
      exact (Prod.mk.inj equal).2

/-- No sync begins or may begin with a copy that is older than what completed requests have settled. -/
structure Prompt (σ : Server) : Prop where
  copies : ∀ source, σ.InUse false source → σ.settled source.id ≤ source.version
  dues : ∀ token, ∀ operation ∈ σ.requests token, ∀ id version, operation.due = some (id, version) →
    σ.Cleared id version (σ.requests token)
  starts : ∀ start ∈ σ.starts, start.settled ≤ start.source.version

/-- A save leaves no copy in use that it makes old. A request to disable may leave one to the loop that it
then stops, when no other loop of the relationship is left over and the loop ends in time. -/
def Careful (σ : Server) : Action → Prop
  | .advance token fails _ => ∀ operation rest, σ.requests token = operation :: rest →
      (∀ id version, fails = false → σ.config.get id ≠ none → σ.saving operation = some (id, version) →
        if operation = .setEnabled id false then σ.ManualUpToDate id version else σ.UpToDate id version) ∧
      ∀ id, operation = .stop id → (∃ later ∈ rest, later.due ≠ none) → ∀ handle, ¬ σ.LeftOver handle id
  | .timeOut token => ∀ handle rest, σ.requests token = .await handle true :: rest →
      (∃ later ∈ rest, later.due ≠ none) → σ.loops handle = none
  | _ => True

theorem Prompt.copies_kept (prompt : Prompt σ) (booked : Booked σ) (copies : CopiesStep σ after)
    (settled : after.settled = σ.settled) (source : Captured) (used : after.InUse false source) :
    after.settled source.id ≤ source.version := by
  rw [settled]
  rcases copies.inUse used with old | current
  · exact prompt.copies source old
  · exact current.newer rfl (booked.settled source.id)

theorem Prompt.starts_kept (prompt : Prompt σ) (copies : CopiesStep σ after) :
    ∀ start ∈ after.starts, start.settled ≤ start.source.version := by
  intro start among
  rcases copies.starts with same | ⟨kind, source, used, more⟩
  · exact prompt.starts start (same ▸ among)
  · rw [more] at among
    rcases List.mem_cons.mp among with rfl | old
    · exact prompt.copies source used
    · exact prompt.starts start old

/-- A request goes on; the others still have what they had to do. -/
theorem Prompt.moved (prompt : Prompt σ) (booked : Booked σ) (copies : CopiesStep σ after)
    (newer : ∀ source, after.InUse false source → after.settled source.id ≤ source.version) {operations : List Operation}
    (requests : after.requests = Function.update σ.requests token operations)
    (dues : ∀ operation ∈ operations, ∀ id version, operation.due = some (id, version) →
      after.Cleared id version operations) : Prompt after where
  copies := newer
  starts := prompt.starts_kept copies
  dues moved operation inside id version due := by
    rw [requests] at inside ⊢
    by_cases same : moved = token
    · subst same
      rw [Function.update_self] at inside ⊢
      exact dues operation inside id version due
    · rw [Function.update_of_ne same] at inside ⊢
      exact (prompt.dues moved operation inside id version due).kept copies
        (booked.dues moved operation inside id version due)

theorem Prompt.kept (prompt : Prompt σ) (booked : Booked σ) (copies : CopiesStep σ after)
    (settled : after.settled = σ.settled) (requests : after.requests = σ.requests) : Prompt after where
  copies := prompt.copies_kept booked copies settled
  starts := prompt.starts_kept copies
  dues token operation inside id version due := by
    rw [requests] at inside ⊢
    exact (prompt.dues token operation inside id version due).kept copies
      (booked.dues token operation inside id version due)

/-- What an operation that is no stop and no wait leaves to later ones has no older copies. -/
theorem Prompt.newer (prompt : Prompt σ) (here : σ.requests token = operation :: rest)
    (calm : waits operation = false) {other : Operation} (inside : other ∈ operation :: rest)
    (due : other.due = some (id, version)) : σ.UpToDate id version := by
  have cleared := prompt.dues token other (here ▸ inside) id version due
  rw [here] at cleared
  exact cleared.newer calm

theorem Booked.due_le (booked : Booked σ) (here : σ.requests token = operation :: rest) {other : Operation}
    (inside : other ∈ operation :: rest) (due : other.due = some (id, version)) : version ≤ σ.versions id :=
  booked.dues token other (here ▸ inside) id version due

theorem Prompt.quiet (prompt : Prompt σ) (booked : Booked σ) (copies : CopiesStep σ after)
    (here : σ.requests token = operation :: rest) (quiet : operation.saves = false)
    (calm : waits operation = false)
    (taken : operate σ token rest fails moment operation = some after) : Prompt after := by
  obtain ⟨base, new, rfl, same, requests, origin⟩ := operate_quiet quiet taken
  have settled := prompt.copies_kept booked copies same.settled
  refine prompt.moved booked copies settled (by rw [next, requests]) fun other inside id version due => ?_
  have earlier : ∃ first ∈ operation :: rest, first.due = some (id, version) := by
    rcases List.mem_append.mp inside with fresh | old
    · rcases origin other fresh with none | mine
      · rw [none] at due
        cases due
      · exact ⟨operation, List.mem_cons_self .., mine ▸ due⟩
    · exact ⟨other, List.mem_cons_of_mem _ old, due⟩
  obtain ⟨first, among, owed⟩ := earlier
  exact .now ((prompt.newer here calm among owed).kept copies (booked.due_le here among owed))

theorem Prompt.settling (prompt : Prompt σ) (booked : Booked σ)
    (here : σ.requests token = .settle id version :: rest)
    (copies : CopiesStep σ ((σ.settledAt id version).next token rest)) :
    Prompt ((σ.settledAt id version).next token rest) := by
  have mine := prompt.newer here rfl (List.mem_cons_self ..) rfl
  have past := booked.due_le here (List.mem_cons_self ..) rfl
  refine prompt.moved booked copies (fun source used => ?_) rfl fun other inside owedId owed due => ?_
  · show Function.update σ.settled id (max (σ.settled id) version) source.id ≤ source.version
    have old : σ.settled source.id ≤ source.version := by
      rcases copies.inUse used with before | current
      · exact prompt.copies source before
      · exact current.newer rfl (booked.settled source.id)
    by_cases same : source.id = id
    · rw [same, Function.update_self]
      refine max_le (same ▸ old) ?_
      rcases copies.inUse used with before | current
      · exact mine source before same
      · exact current.newer same past
    · rw [Function.update_of_ne same]
      exact old
  · have among := List.mem_cons_of_mem (Operation.settle id version) inside
    exact .now ((prompt.newer here rfl among due).kept copies (booked.due_le here among due))

section Saves

variable {recordedId : Text} {recordedVersion : Nat} {new : List Operation} {source : Captured}
  {inFlight : Bool}

/-- A save adds no copy. -/
theorem inManual_saved (here : σ.requests token = operation :: rest)
    (recorded : Recorded σ base recordedId recordedVersion)
    (bare : ∀ other ∈ new, other.manual true = none ∧ other.plain = true) {moved : Nat}
    (inside : (base.next token (new ++ rest)).InManual inFlight moved source) : σ.InManual inFlight moved source := by
  obtain ⟨other, among, copy⟩ := inside
  simp only [next, recorded.requests] at among
  rcases mem_after here among with before | ⟨-, fresh⟩
  · exact ⟨other, before, copy⟩
  · have none := (bare other fresh).1
    rw [manual_true copy] at none
    cases none

theorem inUse_saved (here : σ.requests token = operation :: rest)
    (recorded : Recorded σ base recordedId recordedVersion)
    (bare : ∀ other ∈ new, other.manual true = none ∧ other.plain = true)
    (used : (base.next token (new ++ rest)).InUse inFlight source) : σ.InUse inFlight source := by
  rcases used with ⟨handle, inside⟩ | ⟨moved, inside⟩ | ⟨moved, inside⟩
  · exact Or.inl ⟨handle, inLoop_of_loops recorded.loops inside⟩
  · exact Or.inr (Or.inl ⟨moved, inManual_saved here recorded bare inside⟩)
  · simp only [next, recorded.requests] at inside
    rcases mem_after here inside with before | ⟨-, fresh⟩
    · exact Or.inr (Or.inr ⟨moved, before⟩)
    · cases (bare _ fresh).2

theorem upToDate_saved (here : σ.requests token = operation :: rest)
    (recorded : Recorded σ base recordedId recordedVersion)
    (bare : ∀ other ∈ new, other.manual true = none ∧ other.plain = true) (newer : σ.UpToDate id version) :
    (base.next token (new ++ rest)).UpToDate id version :=
  fun source used => newer source (inUse_saved here recorded bare used)

end Saves

/-- A save that fails leaves nothing new to do. -/
theorem Prompt.unsaved (prompt : Prompt σ) (booked : Booked σ) {new : List Operation}
    (copies : CopiesStep σ (σ.next token (new ++ rest))) (here : σ.requests token = operation :: rest)
    (calm : waits operation = false) (origin : ∀ other ∈ new, other.due = none) :
    Prompt (σ.next token (new ++ rest)) := by
  refine prompt.moved booked copies (prompt.copies_kept booked copies rfl) rfl
    fun other inside owedId owed due => ?_
  rcases List.mem_append.mp inside with fresh | old
  · rw [origin other fresh] at due
    cases due
  · have among := List.mem_cons_of_mem operation old
    exact .now ((prompt.newer here calm among due).kept copies (booked.due_le here among due))

theorem Prompt.saving (prompt : Prompt σ) (booked : Booked σ) (copies : CopiesStep σ after)
    (here : σ.requests token = operation :: rest)
    (condition : fails = false → σ.config.get id ≠ none → σ.UpToDate id version)
    (saving : σ.saving operation = some (id, version))
    (taken : operate σ token rest fails moment operation = some after) : Prompt after := by
  have calm : waits operation = false := by
    cases operation <;> first | rfl | cases saving
  rcases operate_saving saving taken with ⟨new, rfl, origin⟩ | ⟨works, known, base, new, rfl, recorded, fresh⟩
  · exact prompt.unsaved booked copies here calm origin
  have bare : ∀ other ∈ new, other.manual true = none ∧ other.plain = true := fun other inside =>
    ⟨(fresh other inside).1, (fresh other inside).2.1⟩
  refine prompt.moved booked copies (prompt.copies_kept booked copies recorded.settled)
    (by rw [next, recorded.requests]) fun other inside owedId owed due => ?_
  rcases List.mem_append.mp inside with mine | later
  · cases (fresh other mine).2.2 _ due
    exact .now (upToDate_saved here recorded bare (condition works known))
  · have newer := prompt.newer here calm (List.mem_cons_of_mem _ later) due
    exact .now (upToDate_saved here recorded bare newer)

/-- A request to disable leaves at most the loop that it stops next with an older copy. -/
theorem Prompt.disabling (prompt : Prompt σ) (booked : Booked σ) (copies : CopiesStep σ after)
    (here : σ.requests token = .setEnabled id false :: rest)
    (condition : fails = false → σ.config.get id ≠ none →
      σ.ManualUpToDate id (σ.versionAfter id (enabledRequest false)))
    (taken : operate σ token rest fails moment (.setEnabled id false) = some after) : Prompt after := by
  simp only [operate] at taken
  split at taken
  · cases taken
    have nothing : ∀ other ∈ ([] : List Operation), other.due = none := by simp
    exact prompt.unsaved booked copies here rfl nothing
  next works =>
    cases taken
    have recorded := recorded_saved σ id (enabledRequest false)
    have bare : ∀ other ∈ [Operation.stop id, .settle id ((σ.saved id (enabledRequest false)).versions id)],
        other.manual true = none ∧ other.plain = true := by
      simp [Operation.manual, Operation.plain]
    have newest : (σ.saved id (enabledRequest false)).versions id = σ.versionAfter id (enabledRequest false) := by
      rw [recorded.versions, Function.update_self]
    refine prompt.moved booked copies (prompt.copies_kept booked copies rfl) rfl
      fun other inside owedId owed due => ?_
    rcases List.mem_cons.mp inside with rfl | later
    · cases due
    rcases List.mem_cons.mp later with rfl | later
    · cases due
      refine .stop fun moved source manual mine => ?_
      rw [newest]
      exact condition (by simpa using fun failed => works (Or.inl failed))
        (fun unknown => works (Or.inr unknown)) moved source (inManual_saved here recorded bare manual) mine
    · have newer := prompt.newer here rfl (List.mem_cons_of_mem _ later) due
      exact .now (upToDate_saved here recorded bare newer)

/-- A wait that ends, or that is given up although nothing depends on it, leaves no older copies. -/
theorem Prompt.released (prompt : Prompt σ) (booked : Booked σ) {handle : Nat} {locked : Bool}
    (here : σ.requests token = .await handle locked :: rest)
    (gone : locked = true → (∃ later ∈ rest, later.due ≠ none) → σ.loops handle = none)
    (copies : CopiesStep σ ((σ.unlocked locked).next token rest)) :
    Prompt ((σ.unlocked locked).next token rest) := by
  have settled := (sameBooks_unlocked σ locked).settled
  refine prompt.moved booked copies (prompt.copies_kept booked copies settled)
    (by rw [next, requests_unlocked]) fun other inside id version due => ?_
  have among := List.mem_cons_of_mem (Operation.await handle locked) inside
  refine .now (UpToDate.kept ?_ copies (booked.due_le here among due))
  cases locked with
  | false => exact prompt.newer here rfl among due
  | true =>
      have cleared := prompt.dues token other (here ▸ among) id version due
      rw [here] at cleared
      exact cleared.released (gone rfl ⟨other, inside, by simp [due]⟩)

theorem Prompt.stopping (prompt : Prompt σ) (booked : Booked σ) (disciplined : Disciplined σ)
    (coherent : Coherent σ) (copies : CopiesStep σ after) (here : σ.requests token = .stop id :: rest)
    (whole : (∃ later ∈ rest, later.due ≠ none) → ∀ handle, ¬ σ.LeftOver handle id)
    (taken : operate σ token rest fails moment (.stop id) = some after) : Prompt after := by
  have cleared : ∀ other ∈ rest, ∀ owedId owed, other.due = some (owedId, owed) →
      σ.Cleared owedId owed (.stop id :: rest) ∧ ∀ handle, ¬ σ.LeftOver handle id := by
    intro other inside owedId owed due
    have cleared := prompt.dues token other (here ▸ List.mem_cons_of_mem _ inside) owedId owed due
    exact ⟨here ▸ cleared, whole ⟨other, inside, by simp [due]⟩⟩
  have past : ∀ other ∈ rest, ∀ owedId owed, other.due = some (owedId, owed) → owed ≤ σ.versions owedId :=
    fun other inside owedId owed due => booked.due_le here (List.mem_cons_of_mem _ inside) due
  simp only [operate] at taken
  split at taken
  · cases taken
  next locked =>
    have free : σ.lock = none := not_not.mp locked
    split at taken
    next absent =>
      cases taken
      refine prompt.moved booked copies (prompt.copies_kept booked copies rfl) rfl
        fun other inside owedId owed due => ?_
      obtain ⟨mine, whole⟩ := cleared other inside owedId owed due
      have newer := mine.unmapped disciplined coherent free whole absent
      exact .now (newer.kept copies (past other inside owedId owed due))
    next handle found =>
      cases taken
      refine prompt.moved booked copies (prompt.copies_kept booked copies rfl) rfl
        fun other inside owedId owed due => ?_
      rcases List.mem_cons.mp inside with rfl | later
      · cases due
      obtain ⟨mine, whole⟩ := cleared other later owedId owed due
      have waiting := mine.stopping disciplined coherent free whole found rest
      exact waiting.kept copies (past other later owedId owed due)

theorem Prompt.operate (prompt : Prompt σ) (booked : Booked σ) (disciplined : Disciplined σ)
    (coherent : Coherent σ) (here : σ.requests token = operation :: rest)
    (careful : σ.Careful (.advance token fails moment))
    (taken : AeordbSync.operate σ token rest fails moment operation = some after) : Prompt after := by
  have copies := operate_copies here taken
  obtain ⟨saves, whole⟩ := careful operation rest here
  cases operation with
  | settle id version =>
      cases taken
      exact prompt.settling booked here copies
  | stop id => exact prompt.stopping booked disciplined coherent copies here (whole id rfl) taken
  | await handle locked =>
      simp only [AeordbSync.operate] at taken
      split at taken
      next gone =>
        cases taken
        exact prompt.released booked here (fun _ _ => gone) copies
      · cases taken
  | setEnabled id enabled =>
      cases enabled with
      | true =>
          refine prompt.saving booked copies here (fun works known => ?_) rfl taken
          have condition := saves id _ works known rfl
          rwa [if_neg (by simp)] at condition
      | false =>
          refine prompt.disabling booked copies here (fun works known => ?_) taken
          have condition := saves id _ works known rfl
          rwa [if_pos rfl] at condition
  | persist id request existing wasRunning =>
      refine prompt.saving booked copies here (fun works known => ?_) rfl taken
      have condition := saves id _ works known rfl
      rwa [if_neg (by simp)] at condition
  | remove id =>
      refine prompt.saving booked copies here (fun works known => ?_) rfl taken
      have condition := saves id _ works known rfl
      rwa [if_neg (by simp)] at condition
  | _ => exact prompt.quiet booked copies here rfl rfl taken

theorem Prompt.step {action : Action} (prompt : Prompt σ) (booked : Booked σ) (disciplined : Disciplined σ)
    (coherent : Coherent σ) (careful : σ.Careful action) (stepped : Stepped σ action after) :
    Prompt after := by
  have copies := stepped.copies
  cases stepped with
  | @received token operation empty request =>
      refine prompt.moved booked copies (prompt.copies_kept booked copies rfl) rfl
        fun other inside id version due => ?_
      rw [List.mem_singleton.mp inside, due_of_isRequest request] at due
      cases due
  | operated here taken => exact prompt.operate booked disciplined coherent here careful taken
  | @timedOut token handle locked rest here =>
      exact prompt.released booked here (fun locks later => careful handle rest (locks ▸ here) later) copies
  | queued => exact prompt.kept booked copies rfl rfl
  | left => exact prompt.kept booked copies rfl rfl
  | skipped => exact prompt
  | begun => exact prompt.kept booked copies rfl rfl
  | dropped => exact prompt.kept booked copies rfl rfl
  | wrote => exact prompt.kept booked copies rfl rfl
  | finishedLoop => exact prompt.kept booked copies rfl rfl
  | @finishedRequest token source rest guards here =>
      refine prompt.moved booked copies (prompt.copies_kept booked copies rfl) rfl
        fun other inside id version due => ?_
      have among := List.mem_cons_of_mem (Operation.syncing source) inside
      exact .now ((prompt.newer here rfl among due).kept copies (booked.due_le here among due))

/-- Nothing has been changed yet. -/
structure Opened (σ : Server) : Prop extends Fresh σ where
  history : ∀ id, σ.history id (σ.versions id) = settingsAt σ.config id
  settled : ∀ id, σ.settled id ≤ σ.versions id

theorem Fresh.not_inUse (fresh : σ.Fresh) (inFlight : Bool) (source : Captured) :
    ¬ σ.InUse inFlight source := by
  rintro (⟨handle, loop, found, -⟩ | ⟨token, operation, inside, -⟩ | ⟨token, inside⟩)
  · rw [fresh.loops] at found
    cases found
  · exact fresh.no_request token operation inside
  · exact fresh.no_request token _ inside

theorem Opened.booked (opened : σ.Opened) : Booked σ where
  history := opened.history
  settled := opened.settled
  dues token operation inside := (opened.toFresh.no_request token operation inside).elim
  copies source used := (opened.toFresh.not_inUse false source used).elim
  starts start among := by
    rw [opened.starts] at among
    cases among

theorem Opened.prompt (opened : σ.Opened) : Prompt σ where
  copies source used := (opened.toFresh.not_inUse false source used).elim
  dues token operation inside := (opened.toFresh.no_request token operation inside).elim
  starts start among := by
    rw [opened.starts] at among
    cases among

/-- In every careful run each sync begins with settings that are no older than those of the last change
that a request has completed, and with a relationship that these settings enable. -/
theorem starts_settled (globMatch : Text → Text → Bool) (first : Server) (actions : List Action)
    (last : Server) (opened : first.Opened) (run : Run globMatch Careful first actions last) :
    ∀ start ∈ last.starts, start.settled ≤ start.source.version ∧
      last.history start.source.id start.source.version = some start.source.relationship.settings ∧
      start.source.relationship.enabled = true := by
  have invariant : Disciplined last ∧ Coherent last ∧ Booked last ∧ Prompt last := by
    refine run.invariant (I := fun σ => Disciplined σ ∧ Coherent σ ∧ Booked σ ∧ Prompt σ)
      (fun σ next action holds careful taken => ?_) ?_
    · obtain ⟨disciplined, coherent, booked, prompt⟩ := holds
      have taken := stepped taken
      exact ⟨disciplined.step taken, coherent.step taken, booked.step taken,
        prompt.step booked disciplined coherent careful taken⟩
    · refine ⟨opened.toFresh.disciplined, fun handle loop found => ?_, opened.booked, opened.prompt⟩
      rw [opened.loops] at found
      cases found
  obtain ⟨-, -, booked, prompt⟩ := invariant
  intro start among
  exact ⟨prompt.starts start among, (booked.starts start among).2⟩

def disabledByRequest : List Action :=
  [.receive 1 (.setEnabled (text "docs") false), .advance 1 false 0, .advance 1 false 0, .drop 0,
    .advance 1 false 0, .advance 1 false 0]

theorem starts_settled_disabledByRequest : ∃ last,
    runActions equalNames (idleServer [docsRelationship none]) (startedLoop ++ disabledByRequest) = some last ∧
    last.settled (text "docs") = 1 ∧ ∀ start ∈ last.starts, start.settled ≤ start.source.version ∧
      last.history start.source.id start.source.version = some start.source.relationship.settings ∧
      start.source.relationship.enabled = true := by
  refine ⟨_, rfl, rfl, starts_settled equalNames (idleServer [docsRelationship none])
    (startedLoop ++ disabledByRequest) _ ⟨⟨rfl, fun _ => rfl, rfl, fun _ => rfl, rfl⟩, fun _ => rfl,
      fun _ => Nat.le_refl _⟩ ?_⟩
  have plain : ∀ (σ : Server) (operation : Operation) (rest : List Operation),
      σ.saving operation = none → (∀ id, operation ≠ .stop id) →
      ∀ other later, operation :: rest = other :: later →
        (∀ id version, false = false → σ.config.get id ≠ none → σ.saving other = some (id, version) →
          if other = .setEnabled id false then σ.ManualUpToDate id version else σ.UpToDate id version) ∧
        ∀ id, other = .stop id → (∃ next ∈ later, next.due ≠ none) → ∀ handle, ¬ σ.LeftOver handle id := by
    intro σ operation rest none quiet other later equal
    cases equal
    refine ⟨fun id version _ _ saving => ?_, fun id equal => absurd equal (quiet id)⟩
    rw [none] at saving
    cases saving
  refine .cons rfl trivial (.cons rfl (plain _ _ _ rfl (by simp)) (.cons rfl (plain _ _ _ rfl (by simp))
    (.cons rfl trivial (.cons rfl trivial (.cons rfl trivial (.cons rfl ?_ (.cons rfl ?_ (.cons rfl trivial
      (.cons rfl (plain _ _ _ rfl (by simp)) (.cons rfl (plain _ _ _ rfl (by simp)) (.nil _)))))))))))
  · intro operation rest here
    cases here
    refine ⟨fun id version _ _ saving => ?_, fun id equal => nomatch equal⟩
    cases saving
    rw [if_pos rfl]
    rintro (_ | _ | token) source ⟨operation, inside, copy⟩
    · exact (List.not_mem_nil (show operation ∈ [] from inside)).elim
    · rw [List.mem_singleton.mp (show operation ∈ [_] from inside)] at copy
      cases copy
    · exact (List.not_mem_nil (show operation ∈ [] from inside)).elim
  · intro operation rest here
    cases here
    refine ⟨fun id version _ _ saving => (nomatch saving), fun id equal _ handle left => ?_⟩
    cases equal
    obtain ⟨⟨loop, found, -⟩, outside, -⟩ := left
    rcases handle with _ | handle
    · exact outside (List.mem_singleton_self _)
    · cases found

/-- Neither an update that keeps the paths nor a deletion reaches the loop that runs. -/
def pulledOnly : List Action :=
  [.receive 1 (.inspect (text "docs") ⟨none, none, none, some .pullOnly, none, none, none⟩), .advance 1 false 0,
    .advance 1 false 0, .advance 1 false 0]

def deletedMeanwhile : List Action :=
  [.receive 2 (.remove (text "docs")), .advance 2 false 0, .advance 2 false 0]

def pushedThen : List Action := [.fileEvent 0 (text "a.txt") false, .begin 0, .finish (.loop 0)]

theorem starts_settled_oldCopy : ∃ last,
    runActions equalNames (idleServer [docsRelationship none])
      (startedLoop ++ pulledOnly ++ pushedThen ++ deletedMeanwhile ++ pushedThen) = some last ∧
    (last.starts.map fun start => (start.kind, start.source.version, start.settled)) =
      [(.push, 0, 2), (.push, 0, 1), (.full, 0, 0)] ∧
    (last.history (text "docs") 1).map SyncRelationship.direction = some .pullOnly ∧
    last.history (text "docs") 2 = none := by
  refine ⟨_, rfl, by decide, by decide, by decide⟩

end Server

end AeordbSync

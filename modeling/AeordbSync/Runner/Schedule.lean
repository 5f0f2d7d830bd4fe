import AeordbSync.Library.Backoff
import AeordbSync.Library.Runs
import AeordbSync.Reference
import AeordbSync.Runner.Loop

namespace AeordbSync
open Characters OsPath FileSystem Effect

/-- The wait before a retry doubles from one minute to fifteen. -/
def transientRetries : Backoff := ⟨transientSyncRetryInitialDelay, transientSyncRetryMaxDelay⟩

/-- How often syncs have failed for a transient reason since one succeeded. The last turn comes first. -/
def transientFailures : List LoopTurn → Nat
  | [] => 0
  | turn :: earlier => match turn.outcome with
      | .synced _ => 0
      | .failed error _ => if error.isTransientUpstream then transientFailures earlier + 1 else transientFailures earlier
      | _ => transientFailures earlier

/-- When a sync should be tried again. A success ends the wait, and so does the retry itself. -/
def retryDue : List LoopTurn → Option Nat
  | [] => none
  | turn :: earlier =>
      let left := if turn.trigger = .retry then none else retryDue earlier
      match turn.outcome with
      | .synced _ => none
      | .failed error _ =>
          if error.isTransientUpstream then some (turn.ended + transientRetries.wait (transientFailures earlier))
          else left
      | _ => left

section Failed

variable {trigger : SyncTrigger} {began ended : Nat} {error : ClientError} {message : Text} {earlier : List LoopTurn}

theorem transientFailures_failed :
    transientFailures (⟨trigger, began, ended, .failed error message⟩ :: earlier) =
      if error.isTransientUpstream then transientFailures earlier + 1 else transientFailures earlier := rfl

theorem retryDue_failed :
    retryDue (⟨trigger, began, ended, .failed error message⟩ :: earlier) =
      if error.isTransientUpstream then some (ended + transientRetries.wait (transientFailures earlier))
      else if trigger = .retry then none else retryDue earlier := rfl

end Failed

/-- The time is neither too early nor too late for what comes after these turns. -/
structure InTime (interval : Nat) (earlier : List LoopTurn) (time : Nat) : Prop where
  after : ∀ last ∈ earlier.head?, last.ended ≤ time
  net : ∀ last ∈ earlier.head?, time ≤ last.ended + interval
  retry : ∀ due, retryDue earlier = some due → ∀ last ∈ earlier.head?, time ≤ max due last.ended

/-- A turn comes in time, a retry does not come early, and a failure announces the retry that is due then. -/
structure Punctual (interval : Nat) (earlier : List LoopTurn) (turn : LoopTurn) : Prop where
  inTime : InTime interval earlier turn.began
  notEarly : turn.trigger = .retry → ∃ due, retryDue earlier = some due ∧ due ≤ turn.began
  announced : ∀ error message, turn.outcome = .failed error message → message = syncErrorActivityMessage error
    (if error.isTransientUpstream then some (transientRetries.wait (transientFailures earlier)) else none)

theorem armTransientRetry_eq (error : ClientError) (now : Nat) {retry : TransientRetry} {failures : Nat}
    (delay : retry.delay = transientRetries.wait failures) :
    armTransientRetry error now retry =
      if error.isTransientUpstream then (some (transientRetries.wait failures),
        ⟨now + transientRetries.wait failures, true, transientRetries.wait (failures + 1)⟩)
      else (none, retry) := by
  have allowed : min retry.delay transientSyncRetryMaxDelay = transientRetries.wait failures := by
    rw [delay]
    exact min_eq_left (transientRetries.wait_le failures)
  have next : nextTransientSyncRetryDelay (transientRetries.wait failures) = transientRetries.wait (failures + 1) :=
    transientRetries.grown_wait failures
  unfold armTransientRetry transientSyncRetryDelay
  split
  next impatient =>
    split at impatient
    · cases impatient
    next lasting => rw [if_neg lasting]
  next delay patient =>
    split at patient
    next transient =>
      cases patient
      rw [if_pos transient, allowed, next]
    · cases patient

variable {ρ α : Type} {ctx : LoopContext ρ} {s next : SyncLoopState ρ} {interval : Nat}

namespace SyncLoopState

/-- The loop is woken at once when one of its timers is due. -/
def Timely (s : SyncLoopState ρ) : LoopAction ρ → Prop
  | .pass time => time = 0 ∨
      s.clock + time ≤ s.safetyNet ∧ (s.retry.armed = true → s.clock + time ≤ s.retry.deadline)
  | _ => True

/-- The variables of the loop are what its turns make of them. -/
structure OnSchedule (interval : Nat) (s : SyncLoopState ρ) : Prop where
  delay : s.retry.delay = transientRetries.wait (transientFailures s.turns)
  due : s.stopped = false → retryDue s.turns = if s.retry.armed = true then some s.retry.deadline else none
  net : ∀ last ∈ s.turns.head?, s.safetyNet = last.ended + interval
  now : InTime interval s.turns s.clock
  past : ∀ later turn earlier, s.turns = later ++ turn :: earlier → Punctual interval earlier turn

/-- A pass of the loop is described by what it leaves in the variables of the retry. -/
theorem OnSchedule.turned (scheduled : OnSchedule ctx.safetyNetInterval s) {trigger : SyncTrigger} {took : Nat}
    {outcome : TurnOutcome} {retry : TransientRetry}
    (punctual : Punctual ctx.safetyNetInterval s.turns ⟨trigger, s.clock, s.clock + took, outcome⟩)
    (delay : retry.delay = transientRetries.wait
      (transientFailures (⟨trigger, s.clock, s.clock + took, outcome⟩ :: s.turns)))
    (due : retryDue (⟨trigger, s.clock, s.clock + took, outcome⟩ :: s.turns) =
      if retry.armed = true then some retry.deadline else none) (world : World ρ) :
    OnSchedule ctx.safetyNetInterval ({ s with world := world, retry := retry }.turned ctx trigger took outcome) where
  delay := delay
  due _ := due
  net := by
    intro last newest
    cases newest
    rfl
  now := by
    refine ⟨?_, ?_, ?_⟩
    · intro last newest
      cases newest
      exact le_refl _
    · intro last newest
      cases newest
      exact Nat.le_add_right _ _
    · intro time known last newest
      cases newest
      exact le_max_right _ _
  past := by
    intro later turn earlier split
    cases later with
    | nil =>
        obtain ⟨rfl, rfl⟩ := List.cons_eq_cons.mp split
        exact punctual
    | cons first later => exact scheduled.past later turn earlier (List.cons_eq_cons.mp split).2

theorem OnSchedule.afterSync (scheduled : OnSchedule ctx.safetyNetInterval s) {trigger : SyncTrigger} {took : Nat}
    {retry : TransientRetry} {report : α → SyncReport} {outcome : Except ClientError α × World ρ}
    (delay : retry.delay = s.retry.delay)
    (left : (if trigger = .retry then none else retryDue s.turns) =
      if retry.armed = true then some retry.deadline else none)
    (notEarly : trigger = .retry → ∃ due, retryDue s.turns = some due ∧ due ≤ s.clock) :
    OnSchedule ctx.safetyNetInterval ({ s with retry := retry }.afterSync ctx report trigger took outcome) := by
  obtain ⟨result, world⟩ := outcome
  cases result with
  | ok result =>
      refine scheduled.turned ⟨scheduled.now, notEarly, fun _ _ impossible => by cases impossible⟩ ?_ rfl world
      exact (transientRetries.wait_zero (by decide)).symm
  | error error =>
      have armed := armTransientRetry_eq error (s.clock + took) (delay.trans scheduled.delay)
      by_cases transient : error.isTransientUpstream = true
      · rw [if_pos transient] at armed
        refine scheduled.turned ⟨scheduled.now, notEarly, fun _ _ equal => ?_⟩ ?_ ?_ world
        · cases equal
          rw [armed, if_pos transient]
        · rw [armed, transientFailures_failed, if_pos transient]
        · rw [armed, retryDue_failed, if_pos transient]
          rfl
      · rw [if_neg transient] at armed
        refine scheduled.turned ⟨scheduled.now, notEarly, fun _ _ equal => ?_⟩ ?_ ?_ world
        · cases equal
          rw [armed, if_neg transient]
        · rw [armed, transientFailures_failed, if_neg transient]
          exact delay.trans scheduled.delay
        · rw [armed, retryDue_failed, if_neg transient]
          exact left

theorem OnSchedule.timerSync (scheduled : OnSchedule ctx.safetyNetInterval s) {trigger : SyncTrigger} {took : Nat}
    {retry : TransientRetry} (delay : retry.delay = s.retry.delay)
    (left : (if trigger = .retry then none else retryDue s.turns) =
      if retry.armed = true then some retry.deadline else none)
    (notEarly : trigger = .retry → ∃ due, retryDue s.turns = some due ∧ due ≤ s.clock) :
    OnSchedule ctx.safetyNetInterval ({ s with retry := retry }.timerSync ctx trigger took) := by
  have gone : OnSchedule ctx.safetyNetInterval { s with retry := retry, stopped := true } :=
    ⟨delay.trans scheduled.delay, (fun impossible => by cases impossible), scheduled.net, scheduled.now, scheduled.past⟩
  unfold SyncLoopState.timerSync
  split
  · exact gone
  next relationship known =>
    split
    · split
      next missing =>
        refine scheduled.turned ⟨scheduled.now, notEarly, fun _ _ impossible => by cases impossible⟩ ?_ ?_ s.world
        · exact delay.trans scheduled.delay
        · exact left
      next connection found => exact scheduled.afterSync delay left notEarly
    · exact gone

theorem OnSchedule.passed (scheduled : OnSchedule ctx.safetyNetInterval s) (running : s.stopped = false) {time : Nat}
    (timely : s.Timely (.pass time)) : OnSchedule ctx.safetyNetInterval { s with clock := s.clock + time } := by
  refine ⟨scheduled.delay, scheduled.due, scheduled.net, ?_, scheduled.past⟩
  rcases timely with rfl | ⟨net, retry⟩
  · exact scheduled.now
  · refine ⟨fun last newest => ?_, fun last newest => ?_, fun due known last newest => ?_⟩
    · exact (scheduled.now.after last newest).trans (Nat.le_add_right _ _)
    · exact (scheduled.net last newest) ▸ net
    · have armed := scheduled.due running
      rw [known] at armed
      split at armed
      next set =>
        cases armed
        exact (retry set).trans (le_max_left _ _)
      · cases armed

/-- Every step keeps the schedule. -/
theorem OnSchedule.step (scheduled : OnSchedule ctx.safetyNetInterval s) {action : LoopAction ρ}
    (timely : s.Timely action) (taken : s.step ctx action = some next) : OnSchedule ctx.safetyNetInterval next := by
  unfold SyncLoopState.step at taken
  split at taken
  · cases taken
  next running =>
    have running : s.stopped = false := Bool.eq_false_iff.mpr running
    have due := scheduled.due running
    cases action with
    | pass time =>
        cases taken
        exact scheduled.passed running timely
    | alter disk store remote =>
        cases taken
        exact ⟨scheduled.delay, scheduled.due, scheduled.net, scheduled.now, scheduled.past⟩
    | configure config connections =>
        cases taken
        exact ⟨scheduled.delay, scheduled.due, scheduled.net, scheduled.now, scheduled.past⟩
    | localChange change took =>
        simp only at taken
        split at taken
        · split at taken
          · cases taken
            refine scheduled.turned ⟨scheduled.now, (fun impossible => by cases impossible),
              fun _ _ impossible => by cases impossible⟩ ?_ ?_ s.world
            · exact scheduled.delay
            · exact due
          · cases taken
            exact scheduled.afterSync rfl due fun impossible => by cases impossible
        · cases taken
    | remoteChange change took =>
        simp only at taken
        split at taken
        · cases taken
          exact scheduled.afterSync rfl due fun impossible => by cases impossible
        · cases taken
    | retry took =>
        simp only at taken
        split at taken
        next ready =>
          cases taken
          refine scheduled.timerSync rfl rfl fun _ => ⟨s.retry.deadline, ?_, ready.2⟩
          rw [due, if_pos ready.1]
        · cases taken
    | safetyNet took =>
        simp only at taken
        split at taken
        · cases taken
          exact scheduled.timerSync rfl due fun impossible => by cases impossible
        · cases taken

theorem onSchedule_start (ctx : LoopContext ρ) (world : World ρ) (config : Config) (connections : List RemoteConnection)
    (clock took : Nat) :
    OnSchedule ctx.safetyNetInterval (SyncLoopState.start ctx world config connections clock took) := by
  have idle : OnSchedule ctx.safetyNetInterval
      (⟨world, config, connections, clock, .initial clock, clock, false, []⟩ : SyncLoopState ρ) := by
    refine ⟨(transientRetries.wait_zero (by decide)).symm, fun _ => rfl, (fun _ impossible => by cases impossible),
      ⟨(fun _ impossible => by cases impossible), (fun _ impossible => by cases impossible),
        fun _ impossible => by cases impossible⟩, fun later turn earlier split => ?_⟩
    exact absurd split.symm (List.append_ne_nil_of_right_ne_nil _ (List.cons_ne_nil _ _))
  exact idle.afterSync rfl rfl fun impossible => by cases impossible

instance (s : SyncLoopState ρ) : (action : LoopAction ρ) → Decidable (s.Timely action)
  | .pass time => inferInstanceAs (Decidable (time = 0 ∨
      s.clock + time ≤ s.safetyNet ∧ (s.retry.armed = true → s.clock + time ≤ s.retry.deadline)))
  | .alter _ _ _ => .isTrue trivial
  | .configure _ _ => .isTrue trivial
  | .localChange _ _ => .isTrue trivial
  | .remoteChange _ _ => .isTrue trivial
  | .retry _ => .isTrue trivial
  | .safetyNet _ => .isTrue trivial

/-- An engine that cannot be reached. -/
def unreachableEngine : Engine Shelf :=
  { Shelf.engine plainConfig with
    blobConfig := fun s => (.error (.upstreamUnreachable (text "connection refused")), s) }

def vaultConnection : RemoteConnection :=
  ⟨text "engine", text "Vault", text "http://vault", .none, none, none, 0, 0⟩

def vaultContext (engine : Engine Shelf) (filter : Option String) : LoopContext Shelf :=
  ⟨fun _ => calmEnv engine, docsRelationship filter, vaultConnection, 60, true⟩

def vaultStart (engine : Engine Shelf) (filter : Option String) : SyncLoopState Shelf :=
  start (vaultContext engine filter) (startWorld (homeTree []) [] (Shelf.holding []))
    [docsRelationship filter] [vaultConnection] 0 (seconds 5)

/-- Two retries that are both made when they are due. -/
def outage : List (LoopAction Shelf) := [.pass (seconds 60), .retry (seconds 5), .pass (seconds 120), .retry (seconds 5)]

theorem outage_ran : ((Runs.after (fun s action =>
    if s.Timely action then s.step (vaultContext unreachableEngine none) action else none)
    (vaultStart unreachableEngine none) outage).map fun last => last.turns.map fun turn => (turn.trigger, turn.began)) =
      some [(.retry, seconds 190), (.retry, seconds 65), (.startup, 0)] := by
  decide

end SyncLoopState

end AeordbSync

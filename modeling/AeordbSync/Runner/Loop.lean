import AeordbSync.Configuration.Store
import AeordbSync.Events.Listener
import AeordbSync.Replication
import AeordbSync.Watcher.Coalescing

namespace AeordbSync
open Characters OsPath FileSystem Effect

/-- Durations and instants are counted in nanoseconds. -/
def seconds (n : Nat) : Nat := 1000000000 * n

def watchedSafetyNetMinSeconds : Nat := 60 * 60

def transientSyncRetryInitialDelay : Nat := seconds 60

def transientSyncRetryMaxDelay : Nat := seconds (15 * 60)

def transientSyncRetryDelay (error : ClientError) (currentDelay : Nat) : Option Nat :=
  if error.isTransientUpstream then some (min currentDelay transientSyncRetryMaxDelay) else none

def nextTransientSyncRetryDelay (currentDelay : Nat) : Nat := min (currentDelay * 2) transientSyncRetryMaxDelay

/-- The timer of a loop for its next try, and the delay with which it will be set. -/
structure TransientRetry where
  deadline : Nat
  armed : Bool
  delay : Nat
  deriving DecidableEq

namespace TransientRetry

def initial (now : Nat) : TransientRetry :=
  ⟨now + transientSyncRetryInitialDelay, false, transientSyncRetryInitialDelay⟩

def calmed (retry : TransientRetry) : TransientRetry :=
  { retry with armed := false, delay := transientSyncRetryInitialDelay }

end TransientRetry

/-- Only a transient failure sets the timer. -/
def armTransientRetry (error : ClientError) (now : Nat) (retry : TransientRetry) : Option Nat × TransientRetry :=
  match transientSyncRetryDelay error retry.delay with
  | none => (none, retry)
  | some delay => (some delay, ⟨now + delay, true, nextTransientSyncRetryDelay delay⟩)

def formatRetryDelay (delay : Nat) : Text :=
  let totalSeconds := delay / 1000000000
  if totalSeconds < 60 then decimal totalSeconds ++ text "s"
  else
    let minutes := totalSeconds / 60
    let rest := totalSeconds % 60
    if rest = 0 then decimal minutes ++ text "m"
    else decimal minutes ++ text "m " ++ (if rest < 10 then text "0" else []) ++ decimal rest ++ text "s"

def syncErrorActivityMessage (error : ClientError) (retryDelay : Option Nat) : Text :=
  match retryDelay with
  | some delay => text "Temporary remote issue; retrying sync in " ++ formatRetryDelay delay ++ text ": " ++ error.display
  | none => error.display

def startupPushScanMode : PushScanMode := .lite

def periodicSafetyNetIntervalSeconds (configuredSeconds : Nat) (fsWatcherActive sseListenerActive : Bool) : Nat :=
  if fsWatcherActive || sseListenerActive then max configuredSeconds watchedSafetyNetMinSeconds
  else configuredSeconds

/-- What a loop has been started with. A connection leads to the engine behind it. -/
structure LoopContext (ρ : Type) where
  connect : RemoteConnection → Env ρ
  relationship : SyncRelationship
  connection : RemoteConnection
  syncIntervalSeconds : Nat
  /-- The watcher of the local directory could be started. -/
  watcherStarts : Bool

inductive SyncTrigger where
  | startup
  | localChange
  | remoteChange
  | retry
  | safetyNet
  deriving DecidableEq

/-- What the loop tells the activity log and the listeners of its events. -/
inductive SyncReport where
  | push (result : PushResult)
  | pull (result : PullResult)
  | fullSync (result : SyncResult)

inductive TurnOutcome where
  | ignored
  | unconnected
  | synced (report : SyncReport)
  | failed (error : ClientError) (message : Text)

/-- One pass of the loop, which the model keeps. -/
structure LoopTurn where
  trigger : SyncTrigger
  began : Nat
  ended : Nat
  outcome : TurnOutcome

/-- The sync loop of one relationship, with the configuration that it reads and the turns it has taken. -/
structure SyncLoopState (ρ : Type) where
  world : World ρ
  config : Config
  connections : List RemoteConnection
  clock : Nat
  retry : TransientRetry
  safetyNet : Nat
  stopped : Bool
  turns : List LoopTurn

inductive LoopAction (ρ : Type) where
  | pass (time : Nat)
  | alter (disk : Tree) (store : MetadataStore) (remote : ρ)
  | configure (config : Config) (connections : List RemoteConnection)
  | localChange (change : FsChange) (took : Nat)
  | remoteChange (change : RemoteChange) (took : Nat)
  | retry (took : Nat)
  | safetyNet (took : Nat)

variable {ρ α : Type}

namespace LoopContext

variable (ctx : LoopContext ρ)

def watched : Bool := ctx.relationship.direction.canPush && ctx.watcherStarts

def listening : Bool := ctx.relationship.direction.canPull

def safetyNetInterval : Nat :=
  seconds (periodicSafetyNetIntervalSeconds ctx.syncIntervalSeconds ctx.watched ctx.listening)

/-- A change that the filter leaves out is ignored, and so is a deletion that is not passed on. -/
def ignores (change : FsChange) : Bool :=
  !matchesFilter (ctx.connect ctx.connection).globMatch (((fileName change.path).bind toStr?).getD [])
      ctx.relationship.filter ||
    decide (change.changeType = .deleted) && !ctx.relationship.deletePropagation.localToRemote

end LoopContext

namespace SyncLoopState

variable (ctx : LoopContext ρ)

/-- The sleep of the safety net begins anew with every pass. -/
def turned (trigger : SyncTrigger) (took : Nat) (outcome : TurnOutcome) (s : SyncLoopState ρ) : SyncLoopState ρ :=
  { s with
    clock := s.clock + took
    safetyNet := s.clock + took + ctx.safetyNetInterval
    turns := ⟨trigger, s.clock, s.clock + took, outcome⟩ :: s.turns }

def afterSync (report : α → SyncReport) (trigger : SyncTrigger) (took : Nat)
    (outcome : Except ClientError α × World ρ) (s : SyncLoopState ρ) : SyncLoopState ρ :=
  match outcome with
  | (.ok result, world) =>
      { s with world := world, retry := s.retry.calmed }.turned ctx trigger took (.synced (report result))
  | (.error error, world) =>
      let armed := armTransientRetry error (s.clock + took) s.retry
      { s with world := world, retry := armed.2 }.turned ctx trigger took
        (.failed error (syncErrorActivityMessage error armed.1))

/-- The loop begins with a whole sync, and then it starts to watch. -/
def start (world : World ρ) (config : Config) (connections : List RemoteConnection) (clock took : Nat) :
    SyncLoopState ρ :=
  afterSync ctx .fullSync .startup took
    (syncRelationship (ctx.connect ctx.connection) ctx.relationship config.list startupPushScanMode world)
    ⟨world, config, connections, clock, .initial clock, clock, false, []⟩

/-- A timer works with the relationship and the connection as they are configured now. -/
def timerSync (trigger : SyncTrigger) (took : Nat) (s : SyncLoopState ρ) : SyncLoopState ρ :=
  match s.config.get ctx.relationship.id with
  | none => { s with stopped := true }
  | some relationship =>
      if relationship.enabled then
        match s.connections.find? fun connection => connection.id = relationship.remoteConnectionId with
        | none => s.turned ctx trigger took .unconnected
        | some connection => s.afterSync ctx .fullSync trigger took
            (syncRelationship (ctx.connect connection) relationship s.config.list .lite s.world)
      else { s with stopped := true }

def step (s : SyncLoopState ρ) (action : LoopAction ρ) : Option (SyncLoopState ρ) :=
  if s.stopped then none
  else match action with
    | .pass time => some { s with clock := s.clock + time }
    | .alter disk store remote => some { s with world := { s.world with disk := disk, store := store, remote := remote } }
    | .configure config connections => some { s with config := config, connections := connections }
    | .localChange change took =>
        if ctx.watched then
          if ctx.ignores change then some (s.turned ctx .localChange 0 .ignored)
          else some (s.afterSync ctx .push .localChange took
            (pushSync (ctx.connect ctx.connection) ctx.relationship s.config.list .lite s.world))
        else none
    | .remoteChange _ took =>
        if ctx.listening then some (s.afterSync ctx .pull .remoteChange took
          (pullSync (ctx.connect ctx.connection) ctx.relationship s.config.list s.world))
        else none
    | .retry took =>
        if s.retry.armed = true ∧ s.retry.deadline ≤ s.clock then
          some ({ s with retry := { s.retry with armed := false } }.timerSync ctx .retry took)
        else none
    | .safetyNet took => if s.safetyNet ≤ s.clock then some (s.timerSync ctx .safetyNet took) else none

end SyncLoopState

end AeordbSync

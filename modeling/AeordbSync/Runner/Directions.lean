import AeordbSync.Library.Runs
import AeordbSync.Pull.Remote
import AeordbSync.Push.StoreFrame
import AeordbSync.Runner.Schedule

namespace AeordbSync
open Characters OsPath FileSystem Effect

variable {ρ α : Type} {env : Env ρ} {view : ρ → Text → Option RemoteEntry} {relationship : SyncRelationship}
  {others : List SyncRelationship} {mode : PushScanMode} {w : World ρ}

/-- What a direction leaves alone: a sync that cannot push spares the remote, and one that cannot pull the disk. -/
structure Spares (view : ρ → Text → Option RemoteEntry) (direction : SyncDirection) (w next : World ρ) : Prop where
  remote : direction.canPush = false → view next.remote = view w.remote
  disk : direction.canPull = false → next.disk = w.disk

namespace Spares

variable {direction : SyncDirection} {next last : World ρ}

theorem refl (w : World ρ) : Spares view direction w w := ⟨fun _ => rfl, fun _ => rfl⟩

theorem trans (first : Spares view direction w next) (second : Spares view direction next last) :
    Spares view direction w last :=
  ⟨fun pulls => (second.remote pulls).trans (first.remote pulls), fun pushes => (second.disk pushes).trans (first.disk pushes)⟩

end Spares

theorem pullSync_spares (frame : EngineFrame env.engine view) {direction : SyncDirection}
    (pulls : direction.canPull = true) (w : World ρ) : Spares view direction w (pullSync env relationship others w).2 := by
  refine ⟨fun _ => pullSync_remote frame relationship others w, fun never => ?_⟩
  rw [pulls] at never
  cases never

theorem pushSync_spares {direction : SyncDirection} (pushes : direction.canPush = true) (w : World ρ) :
    Spares view direction w (pushSync env relationship others mode w).2 := by
  refine ⟨fun never => ?_, fun _ => pushSync_disk env relationship others mode w⟩
  rw [pushes] at never
  cases never

theorem spares_triple {direction : SyncDirection} {x : Program ρ α} (each : ∀ s, Spares view direction s (x s).2) :
    Triple (Spares view direction w) x (fun _ => Spares view direction w) (fun _ => Spares view direction w) := by
  intro s before
  have after := before.trans (each s)
  rcases ended : x s with ⟨result, next⟩
  rw [ended] at after
  cases result <;> exact after

theorem syncRelationship_spares (frame : EngineFrame env.engine view) (w : World ρ) :
    Spares view relationship.direction w (syncRelationship env relationship others mode w).2 := by
  let Kept : World ρ → Prop := Spares view relationship.direction w
  have pushed (pull : Option PullResult) : Triple Kept (do
      let push ← if relationship.direction.canPush then (do
          let result ← pushSync env relationship others mode
          pure (some result)) else pure none
      pure (SyncResult.mk push pull)) (fun _ => Kept) fun _ => Kept := by
    refine Triple.ite (fun pushes => Triple.bind (Q := fun _ => Kept) ?_ fun push => Triple.ret fun _ => id)
      fun _ => Triple.ret fun _ => id
    exact Triple.bind (spares_triple (pushSync_spares pushes)) fun _ => Triple.ret fun _ => id
  have run : Triple Kept (syncRelationship env relationship others mode) (fun _ => Kept) fun _ => Kept := by
    refine Triple.ite (fun pulls => Triple.bind (Q := fun _ => Kept) ?_ pushed) fun _ => pushed none
    exact Triple.bind (spares_triple (pullSync_spares frame pulls)) fun _ => Triple.ret fun _ => id
  exact run.reached (.refl w)

namespace SyncLoopState

variable {ctx : LoopContext ρ} {s next : SyncLoopState ρ}

/-- Others do not touch what the direction leaves alone, and the direction is not changed. -/
def Respected (ctx : LoopContext ρ) (view : ρ → Text → Option RemoteEntry) (s : SyncLoopState ρ) :
    LoopAction ρ → Prop
  | .alter disk _ remote => (ctx.relationship.direction.canPush = false → view remote = view s.world.remote) ∧
      (ctx.relationship.direction.canPull = false → disk = s.world.disk)
  | .configure config _ => ∀ relationship, config.get ctx.relationship.id = some relationship →
      relationship.direction = ctx.relationship.direction
  | _ => True

/-- The loop has spared what its direction leaves alone, and the configured direction is its own. -/
structure Faithful (ctx : LoopContext ρ) (view : ρ → Text → Option RemoteEntry) (first : World ρ)
    (s : SyncLoopState ρ) : Prop where
  spared : Spares view ctx.relationship.direction first s.world
  configured : ∀ relationship, s.config.get ctx.relationship.id = some relationship →
    relationship.direction = ctx.relationship.direction

theorem Faithful.afterSync {first : World ρ} (faithful : Faithful ctx view first s) {report : α → SyncReport}
    {trigger : SyncTrigger} {took : Nat} {x : Program ρ α}
    (spares : Spares view ctx.relationship.direction s.world (x s.world).2) :
    Faithful ctx view first (s.afterSync ctx report trigger took (x s.world)) := by
  unfold SyncLoopState.afterSync
  rcases ended : x s.world with ⟨result, world⟩
  rw [ended] at spares
  cases result with
  | ok result => exact ⟨faithful.spared.trans spares, faithful.configured⟩
  | error error => exact ⟨faithful.spared.trans spares, faithful.configured⟩

theorem Faithful.timerSync (frames : ∀ connection, EngineFrame (ctx.connect connection).engine view) {first : World ρ}
    (faithful : Faithful ctx view first s) {trigger : SyncTrigger} {took : Nat} :
    Faithful ctx view first (s.timerSync ctx trigger took) := by
  unfold SyncLoopState.timerSync
  split
  · exact ⟨faithful.spared, faithful.configured⟩
  next relationship known =>
    split
    · split
      · exact ⟨faithful.spared, faithful.configured⟩
      next connection found =>
        refine faithful.afterSync ?_
        rw [← faithful.configured relationship known]
        exact syncRelationship_spares (frames connection) s.world
    · exact ⟨faithful.spared, faithful.configured⟩

theorem Faithful.step (frames : ∀ connection, EngineFrame (ctx.connect connection).engine view) {first : World ρ}
    (faithful : Faithful ctx view first s) {action : LoopAction ρ} (respected : s.Respected ctx view action)
    (taken : s.step ctx action = some next) : Faithful ctx view first next := by
  unfold SyncLoopState.step at taken
  split at taken
  · cases taken
  cases action with
  | pass time =>
      cases taken
      exact ⟨faithful.spared, faithful.configured⟩
  | alter disk store remote =>
      cases taken
      exact ⟨faithful.spared.trans ⟨respected.1, respected.2⟩, faithful.configured⟩
  | configure config connections =>
      cases taken
      exact ⟨faithful.spared, respected⟩
  | localChange change took =>
      simp only at taken
      split at taken
      next watched =>
        split at taken
        · cases taken
          exact ⟨faithful.spared, faithful.configured⟩
        · cases taken
          exact faithful.afterSync (pushSync_spares (Bool.and_eq_true_iff.mp watched).1 s.world)
      · cases taken
  | remoteChange change took =>
      simp only at taken
      split at taken
      next listening =>
        cases taken
        exact faithful.afterSync (pullSync_spares (frames ctx.connection) listening s.world)
      · cases taken
  | retry took =>
      simp only at taken
      split at taken
      · cases taken
        have fired : Faithful ctx view first { s with retry := { s.retry with armed := false } } :=
          ⟨faithful.spared, faithful.configured⟩
        exact fired.timerSync frames
      · cases taken
  | safetyNet took =>
      simp only at taken
      split at taken
      · cases taken
        exact faithful.timerSync frames
      · cases taken

/-- The user has a draft in a directory that only pulls, and the remote has had a key for it since. -/
def pulledContext : LoopContext Shelf :=
  { vaultContext (Shelf.engine plainConfig) none with
    relationship := { docsRelationship none with direction := .pullOnly } }

def pulledWorld : World Shelf :=
  startWorld (homeTree [("draft", .file [66] 5)]) [] { Shelf.holding [] with
    chunks := [[65]]
    diffs := [Shelf.emptyDiff, ⟨text "next", ⟨[⟨text "/docs/key", [], 1, none, [plainDigest [65]]⟩], [], [], [], [], []⟩⟩] }

def pulledStart : SyncLoopState Shelf :=
  start pulledContext pulledWorld [pulledContext.relationship] [vaultConnection] 0 (seconds 5)

def pulledKey : List (LoopAction Shelf) :=
  [.pass (seconds 60), .remoteChange ⟨text "entries_created", text "/docs/key"⟩ (seconds 5)]

theorem pulledKey_ran : ((Runs.after (fun s => s.step pulledContext) pulledStart pulledKey).map fun last =>
    ((last.world.disk.node [osText (text "home"), osText (text "key")]).isSome, last.turns.length)) = some (true, 2) := by
  decide

end SyncLoopState

end AeordbSync

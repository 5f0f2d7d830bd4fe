import AeordbSync.Pull.Sync
import AeordbSync.Push.Sync
import AeordbSync.Server.Settings

namespace AeordbSync
open Effect

/-- What a sync has done in each direction. -/
structure SyncResult where
  push : Option PushResult
  pull : Option PullResult

variable {ρ : Type} (env : Env ρ)

/-- The latest remote state is pulled before the local changes are pushed, and a failed pull ends the sync. -/
def syncRelationship (relationship : SyncRelationship) (others : List SyncRelationship) (mode : PushScanMode) :
    Program ρ SyncResult := do
  let pull ← if relationship.direction.canPull then (do
      let result ← pullSync env relationship others
      pure (some result)) else pure none
  let push ← if relationship.direction.canPush then (do
      let result ← pushSync env relationship others mode
      pure (some result)) else pure none
  pure ⟨push, pull⟩

end AeordbSync

import AeordbSync.Library.Runs
import AeordbSync.Pull.Delivery
import AeordbSync.Pull.Remote

namespace AeordbSync
open Characters OsPath FileSystem Effect

variable {ρ : Type} {env : Env ρ}

/-- What stands at a place shows what the remote holds. -/
def Shows : Option RemoteEntry → Option Node → Prop
  | none, node => node = none
  | some (.file content), node => ∃ time, node = some (.file content time)
  | some (.symlink target), node => ∃ time, node = some (.symlink (osText target) time)

/-- The changes lead to what the remote holds at the path now. They name a path under what it is now, and they name it
when it was something else before. -/
structure LeadsFrom (env : Env ρ) (hashPrefix : Text) (changes : RemoteSyncChanges) (path : Text)
    (before now : Option RemoteEntry) : Prop where
  files : ∀ entry ∈ changes.files, entry.path = path → ∃ pieces : List Bytes,
    pieces.map (chunkHash env.digest hashPrefix) = entry.chunkHashes ∧ now = some (.file pieces.flatten)
  symlinks : ∀ entry ∈ changes.symlinks, entry.path = path → now = some (.symlink entry.target)
  deleted : ∀ entry ∈ changes.filesDeleted ++ changes.symlinksDeleted, entry.path = path → now = none
  complete : before ≠ now → (∃ entry ∈ changes.files, entry.path = path) ∨
    (∃ entry ∈ changes.symlinks, entry.path = path) ∨
      ∃ entry ∈ changes.filesDeleted ++ changes.symlinksDeleted, entry.path = path

/-- A root hash names what the engine held, and the engine tells the changes since then. -/
structure TellsChanges (env : Env ρ) (view : ρ → Text → Option RemoteEntry) (hashPrefix : Text)
    (held : Text → Text → Option RemoteEntry) : Prop extends EngineFrame env.engine view where
  configured : ∀ remote config, (env.engine.blobConfig remote).1 = .ok config → config.chunkHashPrefix = hashPrefix
  serves : ServesChunks env hashPrefix
  named : ∀ since remote diff, (env.engine.syncDiff since remote).1 = .ok diff → held diff.rootHash = view remote
  changes : ∀ since remote diff path, (env.engine.syncDiff since remote).1 = .ok diff →
    LeadsFrom env hashPrefix diff.changes path (since.bind fun root => held root path) (view remote path)

/-- The pull follows everything that happens to the path. -/
structure PullContext.Follows (globMatch : Text → Text → Bool) (ctx : PullContext) (path : Text) : Prop where
  included : ctx.isExcluded path = false
  accepted : ctx.accepts globMatch path = true
  propagates : ctx.relationship.deletePropagation.remoteToLocal = true

section Step

variable {ctx : PullContext} {changes : RemoteSyncChanges} {path : Text} {before now : Option RemoteEntry}

theorem LeadsFrom.unlisted (leads : LeadsFrom env ctx.config.chunkHashPrefix changes path before now)
    (follows : ctx.Follows env.globMatch path) (none : ctx.lastTask env.globMatch changes path = none) :
    before = now := by
  by_contra differs
  have apart := lastTask_none none
  rcases leads.complete differs with ⟨entry, listed, rfl⟩ | ⟨entry, listed, rfl⟩ | ⟨entry, listed, rfl⟩
  · exact apart _ (mem_tasks_fetch.mpr ⟨⟨listed, follows.accepted⟩, follows.included⟩) rfl
  · exact apart _ (link_mem_tasks listed follows.included) rfl
  · rcases List.mem_append.mp listed with listed | listed
    · exact apart _ (removeFile_mem_tasks listed follows.propagates follows.included) rfl
    · exact apart _ (removeSymlink_mem_tasks listed follows.propagates follows.included) rfl

/-- What is delivered for a path that showed what was held before shows what is held now. -/
theorem LeadsFrom.shows (leads : LeadsFrom env ctx.config.chunkHashPrefix changes path before now)
    (follows : ctx.Follows env.globMatch path) (distinct : Function.Injective env.digest)
    {first after : Option Node × Option FileSyncMeta} (shown : Shows before first.1)
    (delivered : Delivered env ctx changes path first after) : Shows now after.1 := by
  unfold Delivered at delivered
  cases last : ctx.lastTask env.globMatch changes path with
  | none =>
      rw [last] at delivered
      rw [show after = first from delivered, ← leads.unlisted follows last]
      exact shown
  | some task =>
      rw [last] at delivered
      obtain ⟨named, inside⟩ := lastTask_own last
      rcases mem_tasks_cases inside with ⟨entry, listed, -, rfl⟩ | ⟨entry, listed, rfl⟩ | ⟨entry, listed, rfl⟩ |
        ⟨entry, listed, rfl⟩
      · obtain ⟨pieces, time, modified, synced, chunks, here, -⟩ := delivered
        obtain ⟨held, same, rfl⟩ := leads.files entry listed named
        have injective : Function.Injective (chunkHash env.digest ctx.config.chunkHashPrefix) :=
          fun first second equal => List.append_cancel_left (distinct equal)
        rw [List.map_injective_iff.mpr injective (same.trans chunks.symm)]
        exact ⟨time, here⟩
      · rw [leads.deleted entry (List.mem_append_left _ listed) named]
        exact delivered.1
      · obtain ⟨time, synced, here, -⟩ := delivered
        rw [leads.symlinks entry listed named]
        exact ⟨time, here⟩
      · rw [leads.deleted entry (List.mem_append_right _ listed) named]
        exact delivered.1

end Step

/-- The client, and what the remote held when the client last pulled from it. -/
structure Replica (ρ : Type) where
  world : World ρ
  pulled : Text → Option RemoteEntry

/-- What happens to a replica: it pulls, or anything else happens to it and to the remote. -/
inductive ReplicaAction (ρ : Type) where
  | pull
  | elsewhere (world : World ρ)

/-- The place of a remote path below the root. -/
def SyncRelationship.placeOf (relationship : SyncRelationship) (b : Location) (path : Text) : Location :=
  place b (PullContext.segments ⟨relationship, [], ⟨[], 0, []⟩⟩ path)

namespace Replica

variable {relationship : SyncRelationship} {others : List SyncRelationship} {view : ρ → Text → Option RemoteEntry}

/-- Only pulls that report no error are steps. -/
def step (env : Env ρ) (view : ρ → Text → Option RemoteEntry) (relationship : SyncRelationship)
    (others : List SyncRelationship) (s : Replica ρ) : ReplicaAction ρ → Option (Replica ρ)
  | .elsewhere world => some ⟨world, s.pulled⟩
  | .pull => match pullSync env relationship others s.world with
    | (.ok result, next) => if result.errors = [] then some ⟨next, view next.remote⟩ else none
    | (.error _, _) => none

/-- Whatever else happens leaves the place and the checkpoint alone, and a pull comes through to the path. -/
def Allowed (env : Env ρ) (relationship : SyncRelationship) (others : List SyncRelationship) (b : Location) (path : Text)
    (s : Replica ρ) : ReplicaAction ρ → Prop
  | .elsewhere world => world.store.checkpoint = s.world.store.checkpoint ∧
      world.disk.node (relationship.placeOf b path) = s.world.disk.node (relationship.placeOf b path)
  | .pull => Tree.Anchored s.world.disk relationship.localBase b ∧ ∀ config diff,
      (env.engine.blobConfig s.world.remote).1 = .ok config → offeredDiff env s.world = .ok diff →
        ComesThrough env.globMatch ⟨relationship, others, config⟩ s.world.disk b diff.changes path

/-- The place shows what was pulled last, and the checkpoint names it. -/
structure Mirrored (held : Text → Text → Option RemoteEntry) (q : Location) (path : Text) (s : Replica ρ) : Prop where
  shows : Shows (s.pulled path) (s.world.disk.node q)
  named : (s.world.store.checkpoint.map SyncCheckpoint.remoteRootHash).bind (fun root => held root path) = s.pulled path

theorem Mirrored.start {held : Text → Text → Option RemoteEntry} {q : Location} {path : Text} {start : World ρ}
    (fresh : start.store.checkpoint = none) (free : start.disk.node q = none) :
    Mirrored held q path ⟨start, fun _ => none⟩ := by
  refine ⟨free, ?_⟩
  show (start.store.checkpoint.map SyncCheckpoint.remoteRootHash).bind (fun root => held root path) = none
  rw [fresh]
  rfl

/-- A pull takes what the remote holds. -/
theorem step_pulled (frame : EngineFrame env.engine view) {s last : Replica ρ}
    (stepped : step env view relationship others s .pull = some last) : last.pulled = view s.world.remote := by
  have same := pullSync_remote frame relationship others s.world
  rcases ran : pullSync env relationship others s.world with ⟨result, world⟩
  rw [ran] at same
  simp only [step, ran] at stepped
  cases result with
  | error error => cases stepped
  | ok result =>
      obtain ⟨-, equal⟩ := Option.ite_none_right_eq_some.mp stepped
      cases equal
      exact same

section Run

variable {hashPrefix path : Text} {held : Text → Text → Option RemoteEntry} {b : Location}
  (tells : TellsChanges env view hashPrefix held) (distinct : Function.Injective env.digest) (sighted : env.Sighted)
  (follows : ∀ config, PullContext.Follows env.globMatch ⟨relationship, others, config⟩ path)
include tells distinct sighted follows

theorem Mirrored.pull {s : Replica ρ} {next : World ρ} {result : PullResult}
    (mirrored : Mirrored held (relationship.placeOf b path) path s)
    (allowed : Allowed env relationship others b path s .pull)
    (ran : pullSync env relationship others s.world = (.ok result, next)) (clean : result.errors = []) :
    Mirrored held (relationship.placeOf b path) path ⟨next, view next.remote⟩ := by
  obtain ⟨config, diff, configured, offered, saved⟩ := pullSync_checkpoint ran
  have hashes := tells.configured _ _ configured
  have serves : ServesChunks env config.chunkHashPrefix := by
    rw [hashes]
    exact tells.serves
  have delivered := pullSync_path allowed.1 sighted serves configured offered (allowed.2 config diff configured offered)
    ran clean
  have kept : view next.remote = view s.world.remote := by
    have same := pullSync_remote tells.toEngineFrame relationship others s.world
    rw [ran] at same
    exact same
  have leads := tells.changes _ _ _ path offered
  have named := tells.named _ _ _ offered
  rw [tells.blobConfig_view, mirrored.named, ← hashes] at leads
  rw [tells.blobConfig_view] at named
  refine ⟨?_, ?_⟩
  · rw [kept]
    exact leads.shows (follows config) distinct mirrored.shows delivered
  · rw [saved, kept, ← named]
    rfl

theorem Mirrored.step {s next : Replica ρ} {action : ReplicaAction ρ}
    (mirrored : Mirrored held (relationship.placeOf b path) path s)
    (allowed : Allowed env relationship others b path s action)
    (stepped : Replica.step env view relationship others s action = some next) :
    Mirrored held (relationship.placeOf b path) path next := by
  cases action with
  | elsewhere world =>
      cases stepped
      obtain ⟨checkpoint, place⟩ := allowed
      refine ⟨?_, ?_⟩
      · rw [place]
        exact mirrored.shows
      · rw [checkpoint]
        exact mirrored.named
  | pull =>
      rcases ran : pullSync env relationship others s.world with ⟨result, world⟩
      simp only [Replica.step, ran] at stepped
      cases result with
      | error error => cases stepped
      | ok result =>
          obtain ⟨clean, same⟩ := Option.ite_none_right_eq_some.mp stepped
          cases same
          exact mirrored.pull tells distinct sighted follows allowed ran clean

/-- However often a replica pulls, and whatever becomes of the remote between the pulls, the place of a path that is
followed shows what the remote held when it was pulled from last. -/
theorem mirrors {start : World ρ} {last : Replica ρ} {actions : List (ReplicaAction ρ)}
    (fresh : start.store.checkpoint = none) (free : start.disk.node (relationship.placeOf b path) = none)
    (run : Runs.Run (Replica.step env view relationship others) (Allowed env relationship others b path)
      ⟨start, fun _ => none⟩ actions last) :
    Shows (last.pulled path) (last.world.disk.node (relationship.placeOf b path)) :=
  (run.invariant (fun _ _ _ mirrored allowed stepped => mirrored.step tells distinct sighted follows allowed stepped)
    (Mirrored.start fresh free)).shows

end Run

def noteView (present : Bool) (path : Text) : Option RemoteEntry :=
  if present ∧ path = text "/docs/note" then some (.file [65]) else none

def noteRoot : Bool → Text
  | true => text "noted"
  | false => text "empty"

def noteChanges (before now : Bool) : RemoteSyncChanges :=
  if before = now then ⟨[], [], [], [], [], []⟩
  else if now then ⟨[noteEntry "/docs/note"], [], [], [], [], []⟩
  else ⟨[], [], [⟨text "/docs/note"⟩], [], [], []⟩

/-- An engine that holds one note or nothing, and that takes nothing else. -/
def noteEngine : Engine Bool where
  blobConfig := fun s => (.ok plainConfig, s)
  blobCheckOnce hashes := fun s => (.ok ⟨[], hashes⟩, s)
  uploadChunk _ _ := fun s => (.ok (), s)
  blobCommit files := fun s =>
    if ∀ file ∈ files, file.path = text "/docs/note" ∧ file.chunks = [plainDigest [65]] then
      (.ok (), s || !files.isEmpty)
    else (.error Shelf.unknownChunk, s)
  uploadFile _ _ _ := fun s => (.error Shelf.absent, s)
  deleteFile _ := fun s => (.error Shelf.absent, s)
  createSymlink _ _ := fun s => (.error Shelf.absent, s)
  remoteSymlinkTarget _ := fun s => (.ok none, s)
  renameFile _ _ := fun s => (.error Shelf.absent, s)
  remotePathHasContentHash _ _ _ := fun s => (.error Shelf.absent, s)
  syncDiff since := fun s => (.ok ⟨noteRoot s, noteChanges (since = some (noteRoot true)) s⟩, s)
  syncChunks hashes := fun s => (.ok (hashes.filterMap fun hash =>
    if plainDigest [65] = hash then some (hash, [65]) else none), s)

def noteEnv : Env Bool := calmEnv noteEngine

theorem noteView_other {path : Text} (other : path ≠ text "/docs/note") (present : Bool) : noteView present path = none :=
  if_neg fun holds => other holds.2

theorem noteChanges_leads (before now : Bool) (path : Text) :
    LeadsFrom noteEnv [] (noteChanges before now) path (noteView before path) (noteView now path) := by
  have none : ∀ β : Type, ∀ x : β, x ∉ ([] : List β) := fun _ _ => List.not_mem_nil
  by_cases same : before = now
  · subst same
    rw [noteChanges, if_pos rfl]
    exact ⟨fun _ inside => (none _ _ inside).elim, fun _ inside => (none _ _ inside).elim,
      fun _ inside => (none _ _ inside).elim, fun differs => absurd rfl differs⟩
  rw [noteChanges, if_neg same]
  cases now with
  | true =>
      refine ⟨fun entry inside named => ⟨[[65]], ?_⟩, fun _ inside => (none _ _ inside).elim,
        fun _ inside => (none _ _ inside).elim, fun differs => Or.inl ⟨_, List.mem_cons_self .., ?_⟩⟩
      · cases List.mem_singleton.mp inside
        exact ⟨by decide, if_pos ⟨rfl, named.symm⟩⟩
      · by_contra other
        have apart := noteView_other fun same => other same.symm
        exact differs ((apart _).trans (apart _).symm)
  | false =>
      refine ⟨fun _ inside => (none _ _ inside).elim, fun _ inside => (none _ _ inside).elim,
        fun _ _ _ => if_neg fun holds => Bool.noConfusion holds.1,
        fun differs => Or.inr (Or.inr ⟨_, List.mem_cons_self .., ?_⟩)⟩
      by_contra other
      have apart := noteView_other fun same => other same.symm
      exact differs ((apart _).trans (apart _).symm)

theorem noteEngine_spec : EngineSpec noteEnv.digest [] noteEnv.engine noteView where
  blobConfig_view _ := rfl
  blobCheckOnce_view _ _ := rfl
  uploadChunk_view _ _ _ := rfl
  blobCommit_other files s path apart := by
    show noteView (noteEngine.blobCommit files s).2 path = noteView s path
    unfold noteEngine
    dsimp only
    split
    next accepted =>
      cases files with
      | nil => rw [List.isEmpty_nil, Bool.not_true, Bool.or_false]
      | cons file rest =>
          have inside : file ∈ file :: rest := List.mem_cons_self ..
          have other : path ≠ text "/docs/note" := fun same => apart file inside ((accepted file inside).1.trans same.symm)
          rw [noteView_other other, noteView_other other]
    · rfl
  uploadFile_other _ _ _ _ _ _ := rfl
  deleteFile_other _ _ _ _ := rfl
  createSymlink_other _ _ _ _ _ := rfl
  remoteSymlinkTarget_view _ _ := rfl
  renameFile_other _ _ _ _ _ _ := rfl
  remotePathHasContentHash_view _ _ _ _ := rfl
  syncDiff_view _ _ := rfl
  syncChunks_view _ _ := rfl
  blobConfig_ok := by
    intro _ config same
    cases same
    rfl
  blobCommit_ok files s file done inside _ := by
    unfold noteEnv calmEnv noteEngine at *
    dsimp only at *
    split at done
    next accepted =>
      obtain ⟨named, chunks⟩ := accepted file inside
      refine ⟨[[65]], chunks.symm, ?_⟩
      rw [if_pos accepted, named]
      have some : files.isEmpty = false := List.isEmpty_eq_false_iff.mpr (List.ne_nil_of_mem inside)
      rw [some, Bool.not_false, Bool.or_true]
      rfl
    · cases done
  uploadFile_ok _ _ _ _ done := by cases done
  deleteFile_ok _ _ done := by cases done
  createSymlink_ok _ _ _ done := by cases done
  remoteSymlinkTarget_ok _ _ _ done := by cases done
  renameFile_ok _ _ _ _ done := by cases done
  remotePathHasContentHash_ok _ _ _ _ done := by cases done

theorem noteEngine_tells : TellsChanges noteEnv noteView [] fun root => noteView (root = noteRoot true) where
  toEngineFrame := noteEngine_spec.toEngineFrame
  configured := by
    intro _ config same
    cases same
    rfl
  serves := by
    intro hashes remote pairs answered pair inside
    cases answered
    obtain ⟨hash, -, found⟩ := List.mem_filterMap.mp inside
    obtain ⟨same, equal⟩ := Option.ite_none_right_eq_some.mp found
    cases equal
    exact same
  named := by
    intro since remote diff answered
    cases answered
    cases remote <;> rfl
  changes := by
    intro since remote diff path answered
    cases answered
    have before : (since.bind fun root => noteView (root = noteRoot true) path) =
        noteView (since = some (noteRoot true)) path := by
      cases since with
      | none => rfl
      | some root => simp
    rw [before]
    exact noteChanges_leads _ _ path

/-- The world of an empty client beside an engine that holds the note. -/
def noteStart : World Bool := ⟨besideTree, ⟨Records.empty.setAll [], none, none⟩, true, 0, []⟩

/-- What a pull makes of a world. -/
def notePulled (w : World Bool) : World Bool := (pullSync noteEnv (docsRelationship none) [] w).2

def noteRemoved : World Bool := { notePulled noteStart with remote := false }

theorem home_anchored {t : Tree} (directory : t.node [osText (text "home")] = some .directory) :
    Tree.Anchored t (docsRelationship none).localBase [osText (text "home")] := by
  refine ⟨directory, fun next changed => ?_⟩
  have kept := changed.directories [osText (text "home")] directory
  have path : (docsRelationship none).localBase = absolute [osText (text "home")] := by decide
  rw [path]
  exact Tree.resolve_absolute kept fun target time link => by rw [kept] at link; cases link

theorem step_pull {w : World Bool} (clean : (pullSync noteEnv (docsRelationship none) [] w).1.toOption.map
    PullResult.errors = some []) (pulled : Text → Option RemoteEntry) :
    step noteEnv noteView (docsRelationship none) [] ⟨w, pulled⟩ .pull =
      some ⟨notePulled w, noteView (notePulled w).remote⟩ := by
  unfold step notePulled
  rcases ran : pullSync noteEnv (docsRelationship none) [] w with ⟨result, next⟩
  rw [ran] at clean
  cases result with
  | error error => cases clean
  | ok result => exact if_pos (Option.some.inj clean)

theorem allowed_pull {w : World Bool} {before : Bool} (directory : w.disk.node [osText (text "home")] = some .directory)
    (since : decide (w.store.checkpoint.map SyncCheckpoint.remoteRootHash = some (noteRoot true)) = before)
    (comes : ComesThrough noteEnv.globMatch homeContext w.disk [osText (text "home")] (noteChanges before w.remote)
      (text "/docs/note")) (pulled : Text → Option RemoteEntry) :
    Allowed noteEnv (docsRelationship none) [] [osText (text "home")] (text "/docs/note") ⟨w, pulled⟩ .pull := by
  refine ⟨home_anchored directory, fun config diff configured offered => ?_⟩
  cases configured
  cases offered
  subst since
  exact comes

theorem arrival_comes : ComesThrough noteEnv.globMatch homeContext noteStart.disk [osText (text "home")]
    (noteChanges false true) (text "/docs/note") := by
  refine ⟨by decide +kernel, by decide +kernel, fun entry inside => ?_, by decide +kernel, by decide +kernel,
    fun _ _ _ => by decide +kernel⟩
  have listed := (mem_tasks_fetch.mp inside).1.1
  rw [List.mem_singleton.mp listed]
  decide +kernel

theorem removal_comes : ComesThrough noteEnv.globMatch homeContext noteRemoved.disk [osText (text "home")]
    (noteChanges true false) (text "/docs/note") := by
  refine ⟨by decide +kernel, by decide +kernel, fun entry inside => ?_, by decide +kernel, by decide +kernel,
    fun _ _ _ => by decide +kernel⟩
  exact (List.not_mem_nil (mem_tasks_fetch.mp inside).1.1).elim

theorem note_follows (config : BlobConfig) :
    PullContext.Follows noteEnv.globMatch ⟨docsRelationship none, [], config⟩ (text "/docs/note") := by
  have included : homeContext.isExcluded (text "/docs/note") = false := by decide +kernel
  have accepted : homeContext.accepts noteEnv.globMatch (text "/docs/note") = true := by decide +kernel
  exact ⟨included, accepted, rfl⟩

/-- Two pulls, between which the engine drops the note. -/
theorem run_dropped {start middle last : World Bool} {before after : Text → Option RemoteEntry} {b : Location}
    {path : Text} (first : step noteEnv noteView (docsRelationship none) [] ⟨start, fun _ => none⟩ .pull =
      some ⟨middle, before⟩)
    (arrives : Allowed noteEnv (docsRelationship none) [] b path ⟨start, fun _ => none⟩ .pull)
    (second : step noteEnv noteView (docsRelationship none) [] ⟨{ middle with remote := false }, before⟩ .pull =
      some ⟨last, after⟩)
    (leaves : Allowed noteEnv (docsRelationship none) [] b path ⟨{ middle with remote := false }, before⟩ .pull) :
    Runs.Run (step noteEnv noteView (docsRelationship none) []) (Allowed noteEnv (docsRelationship none) [] b path)
      ⟨start, fun _ => none⟩ [.pull, .elsewhere { middle with remote := false }, .pull] ⟨last, after⟩ :=
  .cons first arrives (.cons rfl ⟨rfl, rfl⟩ (.cons second leaves (.nil _)))

/-- The note is pulled, and after the engine has dropped it, it is gone again with the next pull. -/
theorem mirrors_note : Shows (noteView (notePulled noteRemoved).remote (text "/docs/note"))
    ((notePulled noteRemoved).disk.node ((docsRelationship none).placeOf [osText (text "home")] (text "/docs/note"))) :=
  mirrors noteEngine_tells plainDigest_injective (fun _ _ _ _ => rfl)
    note_follows rfl (by decide +kernel)
    (run_dropped (step_pull (by decide +kernel) _) (allowed_pull (by decide +kernel) (by decide +kernel) arrival_comes _)
      (step_pull (by decide +kernel) _) (allowed_pull (by decide +kernel) (by decide +kernel) removal_comes _))

end Replica

end AeordbSync

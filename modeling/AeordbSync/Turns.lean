import AeordbSync.Pull.Roots
import AeordbSync.Push.Migration
import AeordbSync.Library.Runs

namespace AeordbSync
open Characters OsPath FileSystem Effect

variable {ρ : Type}

/-- One run of a relationship. Between two runs everything but the records may become something else. -/
structure SyncTurn (ρ : Type) where
  env : Env ρ
  relationship : SyncRelationship
  others : List SyncRelationship
  /-- A turn without a mode is a pull. -/
  mode : Option PushScanMode
  world : World ρ

/-- The records that the runs have left and the remote paths that they have changed. -/
structure SyncHistory where
  records : Records
  changed : List Text

/-- The remote paths that an effect commits, uploads, links, renames or deletes. -/
def Event.remotePaths : Event ρ → List Text
  | .deleted path => [path]
  | event => event.pushedPaths

namespace SyncTurn

/-- The run finds the records of the runs before it. -/
def start (turn : SyncTurn ρ) (records : Records) : World ρ :=
  { turn.world with store := { turn.world.store with files := records }, log := [] }

def run (turn : SyncTurn ρ) (records : Records) : World ρ :=
  match turn.mode with
  | none => (pullSync turn.env turn.relationship turn.others (turn.start records)).2
  | some mode => (pushSync turn.env turn.relationship turn.others mode (turn.start records)).2

/-- The relationship has this root, and no migration leads away from another one. -/
def HasRoot (root : Text) (turn : SyncTurn ρ) : Prop :=
  turn.relationship.remotePath = root ∧
    ∀ migration ∈ turn.world.store.migration, migration.oldRemotePath = root

/-- What the run is offered for fetching or linking lies under the root. -/
def OffersUnder (root : Text) (turn : SyncTurn ρ) (records : Records) : Prop :=
  ∀ config diff path, offeredDiff turn.env (turn.start records) = .ok diff →
    (PullContext.mk turn.relationship turn.others config).Fetches turn.env.globMatch diff.changes path ∨
      (PullContext.mk turn.relationship turn.others config).Links diff.changes path →
    isUnderRemoteBase path root = true

end SyncTurn

namespace SyncHistory

def first : SyncHistory := ⟨.empty, []⟩

def step (history : SyncHistory) (turn : SyncTurn ρ) : Option SyncHistory :=
  some ⟨(turn.run history.records).store.files,
    history.changed ++ (turn.run history.records).log.flatMap Event.remotePaths⟩

/-- Pulls are only offered what lies under the root, unless no push passes deletions on. -/
def Confined (root : Text) (propagates : Bool) (history : SyncHistory) (turn : SyncTurn ρ) : Prop :=
  turn.HasRoot root ∧
    match turn.mode with
    | none => propagates = true → turn.OffersUnder root history.records
    | some _ => turn.relationship.deletePropagation.localToRemote = true → propagates = true

end SyncHistory

variable {env : Env ρ} {relationship : SyncRelationship} {others : List SyncRelationship}
  {mode : PushScanMode} {w : World ρ} {root : Text}

/-- A pull changes nothing on the remote, and it records what it is offered. -/
theorem pullSync_records (blank : w.log = []) :
    (pullSync env relationship others w).2.log.flatMap Event.remotePaths = [] ∧
      ∀ path ∈ (pullSync env relationship others w).2.store.files.paths, path ∈ w.store.files.paths ∨
        ∃ config diff, offeredDiff env w = .ok diff ∧
          ((PullContext.mk relationship others config).Fetches env.globMatch diff.changes path ∨
            (PullContext.mk relationship others config).Links diff.changes path) := by
  let scope : PullScope := ⟨fun _ _ _ => True, fun path => ∃ config diff, offeredDiff env w = .ok diff ∧
    ((PullContext.mk relationship others config).Fetches env.globMatch diff.changes path ∨
      (PullContext.mk relationship others config).Links diff.changes path), fun _ => True⟩
  have framed : PullFramed scope w (pullSync env relationship others w).2 :=
    pullSync_framed (fun _ _ => trivial) fun config diff offered =>
      ⟨fun _ _ _ _ => trivial, fun path stored => ⟨config, diff, offered, stored⟩, fun _ _ => trivial⟩
  obtain ⟨new, equal, all⟩ := framed.log
  refine ⟨?_, framed.fresh⟩
  rw [equal, blank, List.append_nil, List.flatMap_eq_nil_iff]
  intro event inside
  have mine := all event inside
  cases event with
  | localChange entry change path => rfl
  | recorded record remote => rfl
  | forgotten path => rfl
  | _ => exact mine.elim

/-- A push from records under the root changes the remote under the root and adds no other record. -/
theorem pushSync_rooted (rooted : relationship.remotePath = root)
    (kept : ∀ migration ∈ w.store.migration, migration.oldRemotePath = root)
    (recorded : relationship.deletePropagation.localToRemote = true →
      ∀ path ∈ w.store.files.paths, isUnderRemoteBase path root = true) :
    (∀ path ∈ (pushSync env relationship others mode w).2.store.files.paths,
      path ∈ w.store.files.paths ∨ isUnderRemoteBase path root = true) ∧
      ∃ new, (pushSync env relationship others mode w).2.log = new ++ w.log ∧
        ∀ event ∈ new, ∀ path ∈ event.remotePaths, isUnderRemoteBase path root = true := by
  subst rooted
  refine pushSync_framed (Q := fun next =>
    (∀ path ∈ next.store.files.paths, path ∈ w.store.files.paths ∨ isUnderRemoteBase path relationship.remotePath = true) ∧
      ∃ new, next.log = new ++ w.log ∧
        ∀ event ∈ new, ∀ path ∈ event.remotePaths, isUnderRemoteBase path relationship.remotePath = true)
    (fun next begun => ?_) fun config l entries s ready => ?_
  · rw [begun.store]
    exact ⟨fun _ => Or.inl, [], begun.log, fun _ inside => (List.not_mem_nil inside).elim⟩
  refine ⟨(isUnderRemoteBase · relationship.remotePath = true), (isUnderRemoteBase · relationship.remotePath = true),
    (isUnderRemoteBase · relationship.remotePath = true), fun request inside => ?_, fun link queued => ?_,
    fun propagates path known _ => known.elim (recorded propagates path) id, fun next framed => ⟨?_, ?_⟩⟩
  · obtain ⟨names, -, own, -, old⟩ := ready.request_offered inside
    refine ⟨own ▸ computeRemotePath_under _ _, fun former legacy => ?_, fun former migrated => ?_⟩
    · rw [ready.legacy_none inside] at legacy
      cases legacy
    · rw [old] at migrated
      obtain ⟨migration, pending, same⟩ := Option.bind_eq_some_iff.mp migrated
      rw [← kept migration pending]
      exact migrationOldRemotePathForEntry_under same
  · obtain ⟨names, -, own⟩ := ready.link_offered queued
    exact own ▸ computeRemotePath_under _ _
  · rw [← ready.begun.store]
    exact framed.stored
  · obtain ⟨new, equal, mine⟩ := framed.log
    refine ⟨new, by rw [equal, ready.begun.log], fun event inside path listed => ?_⟩
    have own := mine event inside
    cases event with
    | committed paths => exact own path listed
    | uploaded other => exact List.mem_singleton.mp listed ▸ own
    | linked other => exact List.mem_singleton.mp listed ▸ own
    | deleted other => exact List.mem_singleton.mp listed ▸ own
    | renamed source target =>
        rcases List.mem_cons.mp listed with rfl | later
        · exact own.2
        · exact List.mem_singleton.mp later ▸ own.1
    | _ => exact absurd listed List.not_mem_nil

namespace SyncHistory

/-- What the runs have changed lies under the root, and so do the records when a push may pass deletions on. -/
structure Rooted (root : Text) (propagates : Bool) (history : SyncHistory) : Prop where
  changed : ∀ path ∈ history.changed, isUnderRemoteBase path root = true
  recorded : propagates = true → ∀ path ∈ history.records.paths, isUnderRemoteBase path root = true

theorem Rooted.step {propagates : Bool} {history next : SyncHistory} {turn : SyncTurn ρ}
    (before : history.Rooted root propagates) (confined : history.Confined root propagates turn)
    (taken : history.step turn = some next) : next.Rooted root propagates := by
  obtain rfl := Option.some.inj taken
  obtain ⟨⟨rooted, kept⟩, fits⟩ := confined
  cases pushes : turn.mode with
  | none =>
      rw [pushes] at fits
      have run : turn.run history.records = (pullSync turn.env turn.relationship turn.others (turn.start history.records)).2 := by
        rw [SyncTurn.run, pushes]
      obtain ⟨quiet, fresh⟩ : (pullSync turn.env turn.relationship turn.others
          (turn.start history.records)).2.log.flatMap Event.remotePaths = [] ∧ _ := pullSync_records rfl
      refine ⟨?_, fun propagated path inside => ?_⟩
      · rw [run, quiet, List.append_nil]
        exact before.changed
      · rw [run] at inside
        rcases fresh path inside with old | ⟨config, diff, offered, listed⟩
        · exact before.recorded propagated path old
        · exact fits propagated config diff path offered listed
  | some mode =>
      rw [pushes] at fits
      have run : turn.run history.records =
          (pushSync turn.env turn.relationship turn.others mode (turn.start history.records)).2 := by
        rw [SyncTurn.run, pushes]
      obtain ⟨stored, new, equal, all⟩ := @pushSync_rooted _ turn.env turn.relationship turn.others mode
        (turn.start history.records) _ rooted kept fun passes => before.recorded (fits passes)
      refine ⟨fun path inside => ?_, fun propagated path inside => ?_⟩
      · rw [run, equal] at inside
        rcases List.mem_append.mp inside with old | late
        · exact before.changed path old
        · obtain ⟨event, listed, named⟩ := List.mem_flatMap.mp late
          rw [show (turn.start history.records).log = [] from rfl, List.append_nil] at listed
          exact all event listed path named
      · rw [run] at inside
        exact (stored path inside).elim (before.recorded propagated path) id

/-- However pulls and pushes follow each other, what the pushes change on the remote lies under the root, when the
pulls are only offered what lies there or no push passes deletions on. -/
theorem changed_rooted {propagates : Bool} {turns : List (SyncTurn ρ)} {last : SyncHistory}
    (run : Runs.Run step (Confined root propagates) first turns last) :
    ∀ path ∈ last.changed, isUnderRemoteBase path root = true := by
  have start : first.Rooted root propagates :=
    ⟨fun _ inside => (List.not_mem_nil inside).elim, fun _ _ inside => (List.not_mem_nil inside).elim⟩
  exact (run.invariant (I := Rooted root propagates) (fun _ _ _ before fits taken => before.step fits taken) start).changed

/-- A pull of the changes into an empty tree, and a push of what it has left. -/
def pulledThenPushed (changes : RemoteSyncChanges) : List (SyncTurn Shelf) :=
  let world := startWorld Tree.bare [] { Shelf.holding [("/docs/note", .file [65]), ("/other/x", .file [65])] with
    chunks := [[65]]
    diffs := [⟨text "next", changes⟩] }
  let pull : SyncTurn Shelf := ⟨shelfEnv, docsRelationship none, [], none, world⟩
  [pull, { pull with
    mode := some .lite
    world := { world with disk := (pull.run .empty).disk, remote := (pull.run .empty).remote } }]

/-- The push deletes a remote file that the user has never put under the root. -/
theorem changed_stray :
    (∀ turn ∈ pulledThenPushed readableChanges, turn.HasRoot (text "/docs/")) ∧
      ∃ last, Runs.Run step (fun _ _ => True) first (pulledThenPushed readableChanges) last ∧
        text "/other/x" ∈ last.changed ∧ isUnderRemoteBase (text "/other/x") (text "/docs/") = false ∧
        ∃ pull push, pulledThenPushed readableChanges = [pull, push] ∧
          (pull.run .empty).remote.entries (text "/other/x") = some (.file [65]) ∧
          (push.run (pull.run .empty).store.files).remote.entries (text "/other/x") = none := by
  refine ⟨fun turn inside => ?_, _, Runs.run_of_after rfl, by decide +kernel, by decide, _, _, rfl,
    by decide +kernel, by decide +kernel⟩
  rcases List.mem_cons.mp inside with rfl | later
  · exact ⟨by decide, fun _ impossible => by cases impossible⟩
  · rw [List.mem_singleton.mp later]
    exact ⟨by decide, fun migration pending => by cases pending⟩

def noteChanges : RemoteSyncChanges := ⟨[noteEntry "/docs/note"], [], [], [], [], []⟩

/-- A note that is pulled and pushed again is changed under the root only. -/
theorem changed_rooted_note :
    ∃ last, Runs.Run step (Confined (text "/docs/") true) first (pulledThenPushed noteChanges) last ∧
      ∀ path ∈ last.changed, isUnderRemoteBase path (text "/docs/") = true := by
  have ran : ∃ last, Runs.Run step (Confined (text "/docs/") true) first (pulledThenPushed noteChanges) last := by
    refine ⟨_, .cons rfl ⟨⟨by decide, fun _ impossible => by cases impossible⟩, fun _ config diff path offered handled => ?_⟩
      (.cons rfl ⟨⟨by decide, fun _ pending => by cases pending⟩, fun _ => rfl⟩ (.nil _))⟩
    rw [← Except.ok.inj offered] at handled
    rcases handled with ⟨⟨entry, inside, rfl⟩, -⟩ | ⟨⟨entry, inside, rfl⟩, -⟩
    · rw [List.mem_singleton.mp inside]
      decide
    · cases inside
  obtain ⟨last, run⟩ := ran
  exact ⟨last, run, changed_rooted run⟩

end SyncHistory

end AeordbSync

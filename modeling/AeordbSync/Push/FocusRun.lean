import AeordbSync.Push.FocusTail

namespace AeordbSync
open Characters OsPath FileSystem Effect

variable {ρ : Type} {env : Env ρ} {view : ρ → Text → Option RemoteEntry} {hashPrefix : Text}
  {relationship : SyncRelationship} {others : List SyncRelationship} {mode : PushScanMode}
  {w : World ρ} {config : BlobConfig} {l : Location} {entries : List PathBuf} {s : PushState ρ}

/-- Every name of the local tree can be read without loss. -/
def Utf8Names (disk : Tree) (l : Location) : Prop :=
  ∀ names, disk.node (l ++ names) ≠ none → ∀ name ∈ names, IsUtf8 name

theorem utf8Names_of_keys {disk : Tree}
    (readable : ∀ key ∈ disk.nodes.keys, ∀ name ∈ key, (toStr? name).isSome = true) (l : Location) :
    Utf8Names disk l := by
  intro names present name inside
  have listed := readable _ (disk.mem_keys.mpr present) name (List.mem_append_right _ inside)
  obtain ⟨s, found⟩ := Option.isSome_iff_exists.mp listed
  exact ⟨s, toStr?_eq_some.mp found⟩

/-- The remote path of what has these names below the local base. -/
abbrev SyncRelationship.remotePathAt (relationship : SyncRelationship) (names : List OsText) : Text :=
  computeRemotePath (names.map .normal) relationship.remotePath

theorem entryRemotePath_below {names : List OsText} {node : Node}
    (present : w.disk.node (l ++ names) = some node) :
    (pushContext relationship others mode config w).entryRemotePath (below relationship.localBase names) =
      relationship.remotePathAt names :=
  entryRemotePath_eq (stripPrefix_below relationship.localBase
    (w.disk.names_valid (l := l) (by rw [present]; exact Option.some_ne_none _)))

/-- No two entries of the walk share a remote path. -/
def PathsApart (relationship : SyncRelationship) (others : List SyncRelationship) (disk : Tree)
    (l : Location) : Prop :=
  ∀ first second, first ≠ [] → second ≠ [] →
    Walkable disk relationship.localBase l (childLocalExclusions relationship others) first →
    Walkable disk relationship.localBase l (childLocalExclusions relationship others) second →
    relationship.remotePathAt first = relationship.remotePathAt second → first = second

/-- Names that can be read without loss are told apart by their remote paths. -/
theorem Utf8Names.pathsApart {disk : Tree} (utf8 : Utf8Names disk l) :
    PathsApart relationship others disk l := by
  intro first second firstSome secondSome left right equal
  have readable : ∀ {names : List OsText}, Walkable disk relationship.localBase l
      (childLocalExclusions relationship others) names → ∀ name ∈ names, IsName name ∧ IsUtf8 name := by
    intro names walkable name inside
    obtain ⟨node, present, -⟩ := walkable.kind
    exact ⟨walkable.names name inside, utf8 names (by rw [present]; exact Option.some_ne_none _) name inside⟩
  exact computeRemotePath_injective relationship.remotePath (readable left) (readable right) firstSome
    secondSome equal

theorem pushScanned_tail (ctx : PushContext) : pushScanned env ctx =
    pushPreparedFiles env ctx >>= fun _ => pushPendingSymlinks env ctx >>= fun _ => pushTail env ctx := rfl

namespace PushReady

variable (ready : PushReady env relationship others mode w config l entries s)
include ready

theorem chunkHashPrefix (spec : EngineSpec env.digest hashPrefix env.engine view) :
    config.chunkHashPrefix = hashPrefix :=
  spec.blobConfig_ok _ _ ready.configured

theorem view_eq (spec : EngineSpec env.digest hashPrefix env.engine view) :
    view s.world.remote = view w.remote := by
  rw [ready.begun.remote]
  exact spec.blobConfig_view _

/-- Entries of the walk have different remote paths. -/
theorem paths_nodup (distinct : PathsApart relationship others w.disk l) :
    (entries.map (pushContext relationship others mode config w).entryRemotePath).Nodup := by
  refine List.Nodup.map_on ?_ ready.walked.nodup
  intro first left second right equal
  obtain ⟨names, nonempty, walkable, rfl⟩ := ready.walked.sound first left
  obtain ⟨more, someMore, reachable, rfl⟩ := ready.walked.sound second right
  obtain ⟨node, present, -⟩ := walkable.kind
  obtain ⟨other, found, -⟩ := reachable.kind
  rw [entryRemotePath_below present, entryRemotePath_below found] at equal
  rw [distinct names more nonempty someMore walkable reachable equal]

end PushReady

/-- The file phase keeps the variables that the scan has filled. -/
theorem pushPreparedFiles_kept {ctx : PushContext} :
    Triple (· = s) (pushPreparedFiles env ctx) (fun _ next => next.seenRemotePaths = s.seenRemotePaths ∧
      next.pendingSymlinks = s.pendingSymlinks) (fun _ _ => True) := by
  have framed : KeepsFrame (fun _ => True) (fun _ => True) (fun _ => True) s (pushPreparedFiles env ctx) fun _ => True :=
    pushPreparedFiles_frame fun _ _ => ⟨trivial, fun _ _ => trivial, fun _ _ => trivial⟩
  refine framed.conseq ?_ (fun _ next holds => ⟨holds.1.seen, holds.1.links⟩) fun _ _ _ => trivial
  intro next equal
  subst equal
  exact ⟨.refl _, rfl, rfl, rfl, id, fun _ => Or.inl, fun _ _ => trivial, fun _ _ => trivial⟩

section Paths

variable {t : Target ρ} {ctx : PushContext}
  (spec : EngineSpec env.digest hashPrefix env.engine view)
  (injective : Function.Injective env.digest)
  (readable : t.wanted → t.disk.read t.entry = .ok t.content)
  (same : ctx.config.chunkHashPrefix = hashPrefix)
  (considerate : ∀ request ∈ s.filePrepRequests, Considerate env t request)
  (tracked : Tracked env view t False [] [] s.filePrepRequests s)
include spec injective readable same considerate tracked

/-- The state in which the file phase leaves a path. -/
structure FilesDone (env : Env ρ) (view : ρ → Text → Option RemoteEntry) (t : Target ρ)
    (s next : PushState ρ) : Prop where
  log : LogTrue env view t.path t.log next.world
  stage : Stage env t False [] [] [] (sight view t.path next)
  seen : next.seenRemotePaths = s.seenRemotePaths
  links : next.pendingSymlinks = s.pendingSymlinks

omit spec injective readable same considerate tracked in
theorem FilesDone.beside {next : PushState ρ} (done : FilesDone env view t s next) :
    Beside env view t.path t.log next next := Beside.refl done.log

omit spec injective readable same considerate tracked in
theorem FilesDone.arrived {next : PushState ρ} (done : FilesDone env view t s next) (wanted : t.wanted) :
    next.errors ≠ [] ∨ t.HeldBy env (view next.world.remote t.path) ∧
      ∀ record, next.world.store.files.find t.path = some record → t.Fresh env record := by
  cases done.stage with
  | waiting _ _ inside => cases inside
  | queued _ _ inside => cases inside
  | settled _ _ held recorded =>
      refine Or.inr ⟨held, ?_⟩
      rcases recorded with ⟨_, inside, -⟩ | ⟨fresh, -⟩
      · cases inside
      · exact fresh
  | failed _ _ failed => exact Or.inl failed
  | untracked _ _ unwanted => exact absurd wanted unwanted
  | lost _ _ unwanted => exact absurd wanted unwanted
  | leaving now => exact now.elim

omit spec injective readable same considerate tracked in
theorem FilesDone.landed {next last : PushState ρ} (done : FilesDone env view t s next) (wanted : t.wanted)
    (outcome : TailOutcome env view t.path t.log ctx next last) (seen : t.path ∈ s.seenRemotePaths) :
    last.errors ≠ [] ∨ Holds env.digest (view last.world.remote) t.path (t.hash env) ∧
      ∀ record, last.world.store.files.find t.path = some record → record.contentHash = t.hash env := by
  have beside := outcome.beside (by rw [done.seen]; exact seen)
  refine (done.arrived wanted).imp beside.errors fun ⟨held, fresh⟩ => ⟨?_, fun record found => ?_⟩
  · obtain ⟨entry, there, same⟩ := held
    exact ⟨entry, beside.there.trans there, same⟩
  · exact (fresh record (beside.stored.symm.trans found)).contentHash

omit spec injective readable same considerate tracked in
/-- A path that no file of the run has is as it was, or another entry has taken its record along. -/
theorem FilesDone.unclaimed {next : PushState ρ} (done : FilesDone env view t s next) (unwanted : ¬ t.wanted) :
    next.errors ≠ [] ∨ (¬ t.apart ∧ next.world.store.files.find t.path = none) ∨
      (view next.world.remote t.path = t.there ∧ next.world.store.files.find t.path = t.record ∧
        (t.apart → next.metadataByPath.find t.path = t.record)) := by
  cases done.stage with
  | waiting _ _ inside => cases inside
  | queued _ _ inside => cases inside
  | settled wanted => exact absurd wanted unwanted
  | failed _ _ failed => exact Or.inl failed
  | untracked _ _ _ there stored mirror => exact Or.inr (Or.inr ⟨there, stored, mirror⟩)
  | lost _ _ _ shared gone => exact Or.inr (Or.inl ⟨shared, gone⟩)
  | leaving now => exact now.elim

theorem pushPreparedFiles_done :
    Triple (· = s) (pushPreparedFiles env ctx) (fun _ => FilesDone env view t s)
      (fun _ next => LogTrue env view t.path t.log next.world) := by
  have files := (pushPreparedFiles_tracked spec injective readable same considerate).weaken (U := (· = s))
    fun next equal => by subst equal; exact ⟨rfl, tracked⟩
  refine (files.both pushPreparedFiles_kept).conseq (fun _ => id) (fun _ next holds => ?_) fun _ _ holds => holds.1
  obtain ⟨⟨after, batch, updates⟩, seen, links⟩ := holds
  refine ⟨after.log, ?_, seen, links⟩
  have stage := after.stage
  rwa [batch, updates] at stage

/-- A path without a symlink of the run goes through the file phase and then through the tail. -/
theorem pushScanned_path (notLink : ∀ link ∈ s.pendingSymlinks, link.remotePath ≠ t.path) :
    Triple (· = s) (pushScanned env ctx)
      (fun _ last => ∃ next, FilesDone env view t s next ∧ TailOutcome env view t.path t.log ctx next last)
      (fun _ last => LogTrue env view t.path t.log last.world) := by
  rw [pushScanned_tail]
  refine Triple.bind (pushPreparedFiles_done spec injective readable same considerate tracked) fun _ => ?_
  refine Triple.fix fun next done => ?_
  refine Triple.bind ((pushPendingSymlinks_beside spec.toEngineFrame fun link inside =>
    notLink link (done.links ▸ inside)).weaken (P := fun u => Beside env view t.path t.log next u ∧
      u.pendingSymlinks = next.pendingSymlinks) fun u equal => ?_) fun _ => ?_
  · subst equal
    exact ⟨done.beside, rfl⟩
  · exact (pushTail_path spec).strengthen fun _ last outcome => ⟨next, done, outcome⟩

/-- A symlink of the run is on the remote and recorded at the end, or there is an error. -/
theorem pushScanned_link {link : PendingSymlink} (own : link.remotePath = t.path)
    (inside : link ∈ s.pendingSymlinks) (listed : link.remotePath ∈ s.seenRemotePaths)
    (single : (s.pendingSymlinks.map PendingSymlink.remotePath).count link.remotePath ≤ 1)
    (identity : link.contentHash = symlinkIdentityHash env.digest link.remotePath link.target) :
    Triple (· = s) (pushScanned env ctx)
      (fun _ last => LogTrue env view t.path t.log last.world ∧ LinkRecorded env view link last)
      (fun _ last => LogTrue env view t.path t.log last.world) := by
  rw [pushScanned_tail]
  refine Triple.bind (pushPreparedFiles_done spec injective readable same considerate tracked) fun _ => ?_
  rw [← own]
  refine Triple.fix fun next done => ?_
  refine Triple.bind ((pushPendingSymlinks_own spec (done.links.symm ▸ inside) (by rwa [done.links])
    identity).weaken (P := fun u => Later env view link.remotePath t.log next u ∧
      u.pendingSymlinks = next.pendingSymlinks) fun u equal => ?_) fun _ => ?_
  · subst equal
    refine ⟨⟨?_, id, rfl⟩, rfl⟩
    rw [own]
    exact done.log
  refine Triple.fix fun middle holds => ?_
  refine (pushTail_path spec).conseq (P := Beside env view link.remotePath t.log middle)
    (fun u equal => by rw [equal]; exact Beside.refl holds.1.log) (fun _ last outcome => ?_) fun _ _ => id
  have seen : link.remotePath ∈ middle.seenRemotePaths := by
    rw [holds.1.seen, done.seen]
    exact listed
  have beside := outcome.beside seen
  refine ⟨beside.log, ?_⟩
  rcases holds.2 with failed | ⟨held, time, found⟩
  · exact Or.inl (beside.errors failed)
  · exact Or.inr ⟨held.congr beside.there, time, beside.stored.trans found⟩

end Paths

end AeordbSync

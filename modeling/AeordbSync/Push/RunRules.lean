import AeordbSync.Push.WalkRules

namespace AeordbSync
open Characters OsPath FileSystem Effect

variable {ρ : Type} {env : Env ρ} {relationship : SyncRelationship} {others : List SyncRelationship}
  {mode : PushScanMode}

/-- A push begins by asking the engine for its configuration and then only reads. -/
structure PushBegun (env : Env ρ) (w start : World ρ) : Prop where
  disk : start.disk = w.disk
  store : start.store = w.store
  log : start.log = w.log
  remote : start.remote = (env.engine.blobConfig w.remote).2

theorem PushBegun.unmoved {w start next : World ρ} (begun : PushBegun env w start)
    (still : Unmoved start next) : PushBegun env w next :=
  ⟨still.disk.trans begun.disk, still.store.trans begun.store, still.log.trans begun.log,
    still.remote.trans begun.remote⟩

def pushContext (relationship : SyncRelationship) (others : List SyncRelationship)
    (mode : PushScanMode) (config : BlobConfig) (w : World ρ) : PushContext :=
  ⟨relationship, others, mode, config, w.store.migration⟩

/-- The state of a run whose walk and scan are complete. -/
structure PushReady (env : Env ρ) (relationship : SyncRelationship) (others : List SyncRelationship)
    (mode : PushScanMode) (w : World ρ) (config : BlobConfig) (l : Location)
    (entries : List PathBuf) (s : PushState ρ) : Prop where
  configured : (env.engine.blobConfig w.remote).1 = .ok config
  reaches : w.disk.Reaches relationship.localBase l
  walked : Walked w.disk relationship.localBase l (childLocalExclusions relationship others)
    (· ≠ []) entries
  begun : PushBegun env w s.world
  scanned : ∃ start : World ρ, start.disk = w.disk ∧
    ScanInv env (pushContext relationship others mode config w) start w.store.files entries [] s

/-- What the scan has done with a node of the tree that belongs to the walk. -/
theorem PushReady.outcome {w : World ρ} {config : BlobConfig} {l : Location} {entries : List PathBuf}
    {s : PushState ρ} (ready : PushReady env relationship others mode w config l entries s)
    {names : List OsText} {node : Node} (nonempty : names ≠ [])
    (present : w.disk.node (l ++ names) = some node) (isEntry : (node.isFile || node.isSymlink) = true)
    (included : isLocalExcludedByChild (below relationship.localBase names)
      (childLocalExclusions relationship others) = false) :
    below relationship.localBase names ∈ entries ∧
      ((s.errors ≠ [] ∧ ∃ error tick,
          env.diskFault .symlinkMetadata (below relationship.localBase names) tick = some error) ∨
        NodeOutcome env (pushContext relationship others mode config w) w.disk w.store.files
          (below relationship.localBase names) node s) := by
  have walkable : Walkable w.disk relationship.localBase l (childLocalExclusions relationship others)
    names := ⟨⟨node, present, isEntry⟩, included⟩
  have listed := ready.walked.complete names nonempty walkable
  obtain ⟨start, onDisk, inv⟩ := ready.scanned
  have settled := (inv.settled _ listed).resolve_left List.not_mem_nil
  rw [onDisk, ScanOutcome, ready.reaches.metadata_present nonempty present] at settled
  exact ⟨listed, settled ⟨_, stripPrefix_below relationship.localBase walkable.names⟩⟩

theorem runPush_triple {records : Records} {x : PushProgram ρ Unit} {w : World ρ}
    {Q : PushResult → World ρ → Prop} {E : ClientError → World ρ → Prop}
    (triple : Triple (· = PushState.start records w) x (fun _ s => Q s.result s.world)
      (fun e s => E e s.world)) : Triple (· = w) (runPush records x) Q E := by
  intro start equal
  subst equal
  have outcome := triple _ rfl
  unfold runPush
  rcases ended : x (PushState.start records start) with ⟨result, s⟩
  rw [ended] at outcome
  cases result <;> exact outcome

/-- The walk of a run is complete, and its scan is still to come. -/
structure PushWalked (env : Env ρ) (relationship : SyncRelationship) (others : List SyncRelationship)
    (w : World ρ) (config : BlobConfig) (l : Location) (entries : List PathBuf) (start : World ρ) : Prop where
  configured : (env.engine.blobConfig w.remote).1 = .ok config
  reaches : w.disk.Reaches relationship.localBase l
  walked : Walked w.disk relationship.localBase l (childLocalExclusions relationship others)
    (· ≠ []) entries
  begun : PushBegun env w start

/-- What holds of every push that starts from a completed walk holds of every push. -/
theorem pushEntries_triple {w : World ρ} {Q : PushResult → World ρ → Prop}
    {E : ClientError → World ρ → Prop} (early : ∀ e next, PushBegun env w next → E e next)
    (late : ∀ config l entries start, PushWalked env relationship others w config l entries start →
      Triple (· = PushState.start w.store.files start)
        (pushEntries env (pushContext relationship others mode config w) entries)
        (fun _ s => Q s.result s.world) (fun e s => E e s.world)) :
    Triple (· = w) (pushSync env relationship others mode) Q E := by
  refine Triple.bind (Q := fun config start => PushBegun env w start ∧
    (env.engine.blobConfig w.remote).1 = .ok config) ?_ fun config => ?_
  · refine callRemote_triple ?_ ?_
    · rintro _ config rfl answered
      exact ⟨⟨rfl, rfl, rfl, rfl⟩, answered⟩
    · rintro _ e rfl -
      exact early e _ ⟨rfl, rfl, rfl, rfl⟩
  refine Triple.assume (fun _ holds => holds.2) fun configured => ?_
  refine Triple.weaken (P := PushBegun env w) ?_ fun _ holds => holds.1
  refine Triple.fix fun first begun => ?_
  have quiet : ∀ {α : Type} {x : Program ρ α} {F : α → Prop},
      Triple (Unmoved first) x (fun a next => Unmoved first next ∧ F a) (fun _ => Unmoved first) →
      Triple (Unmoved first) x (fun a next => Unmoved first next ∧ F a) E :=
    fun triple => triple.conseq (fun _ => id) (fun _ _ => id)
      fun e next unmoved => early e next (begun.unmoved unmoved)
  refine Triple.weaken (P := Unmoved first) ?_ fun _ => .of_eq
  refine Triple.bind (Q := fun _ => Unmoved first) ?_ fun _ => ?_
  · refine Triple.bind (readDisk_unmoved) fun answer => ?_
    cases answer with
    | ok _ => exact Triple.ret fun _ holds => holds.1
    | error _ => exact Triple.throw fun next holds => early _ next (begun.unmoved holds.1)
  refine Triple.bind (quiet readStore_unmoved) fun records => ?_
  refine Triple.assume (fun _ holds => holds.2) fun loaded => ?_
  refine Triple.weaken (P := Unmoved first) ?_ fun _ holds => holds.1
  refine Triple.bind (quiet readStore_unmoved) fun migration => ?_
  refine Triple.assume (fun _ holds => holds.2) fun pending => ?_
  refine Triple.weaken (P := Unmoved first) ?_ fun _ holds => holds.1
  refine Triple.bind (quiet walkdir_walked) fun entries => ?_
  refine Triple.assume (fun _ holds => holds.2) fun walk => ?_
  obtain ⟨l, reaches, walked⟩ := walk
  rw [begun.disk] at reaches walked
  subst records migration
  rw [begun.store]
  exact Triple.fix fun start holds => runPush_triple
    (late config l entries start ⟨configured, reaches, walked, begun.unmoved holds.1⟩)

/-- What holds of every push that starts from a scanned state holds of every push. -/
theorem pushSync_triple {w : World ρ} {Q : PushResult → World ρ → Prop}
    {E : ClientError → World ρ → Prop} (early : ∀ e next, PushBegun env w next → E e next)
    (late : ∀ config l entries s, PushReady env relationship others mode w config l entries s →
      Triple (· = s) (pushScanned env (pushContext relationship others mode config w))
        (fun _ s => Q s.result s.world) (fun e s => E e s.world)) :
    Triple (· = w) (pushSync env relationship others mode) Q E := by
  refine pushEntries_triple early fun config l entries start walked => ?_
  refine Triple.bind (Q := fun _ => ScanInv env (pushContext relationship others mode config w)
    start w.store.files entries []) ?_ fun _ => ?_
  · exact scan_triple.weaken fun _ equal => equal ▸ ScanInv.start entries (Unmoved.refl start)
  · refine Triple.fix fun s inv => late config l entries s ⟨walked.configured, walked.reaches, walked.walked,
      walked.begun.unmoved inv.still, start, walked.begun.disk, inv⟩

/-- What holds within the frame of every scanned push holds after a push. -/
theorem pushSync_framed {w : World ρ} {Q : World ρ → Prop} (early : ∀ next, PushBegun env w next → Q next)
    (each : ∀ config l entries s, PushReady env relationship others mode w config l entries s →
      ∃ own gone moved, (∀ request ∈ s.filePrepRequests, OfRequest own moved request) ∧
        (∀ link ∈ s.pendingSymlinks, own link.remotePath) ∧
        (relationship.deletePropagation.localToRemote = true → ∀ path, path ∈ w.store.files.paths ∨ own path →
          isDeletedLocally (pushContext relationship others mode config w) s.seenRemotePaths path = true → gone path) ∧
        ∀ next, WorldFramed own gone moved s.world next → Q next) :
    Q (pushSync env relationship others mode w).2 := by
  have run : Triple (· = w) (pushSync env relationship others mode) (fun _ => Q) (fun _ => Q) := by
    refine pushSync_triple (fun _ next begun => early next begun) fun config l entries s ready => ?_
    obtain ⟨own, gone, moved, requests, links, deletes, all⟩ := each config l entries s ready
    obtain ⟨start, -, inv⟩ := ready.scanned
    refine (pushScanned_frame requests links fun propagates path known => ?_).conseq ?_
      (fun _ next holds => all _ holds.1.world) fun _ next holds => all _ holds
    · rw [inv.records_eq] at known
      exact deletes propagates path known
    · rintro _ rfl
      refine ⟨WorldFramed.refl _, rfl, rfl, rfl, id, fun _ => Or.inl, ?_, ?_⟩
      · rw [inv.batch]
        exact fun _ inside => (List.not_mem_nil inside).elim
      · rw [inv.updates]
        exact fun _ inside => (List.not_mem_nil inside).elim
  exact run.reached rfl

/-- What holds of every effect of a scanned push holds of every effect of a push. -/
theorem pushSync_effects {w : World ρ} {effect : Event ρ → Prop}
    (each : ∀ config l entries s, PushReady env relationship others mode w config l entries s →
      ∃ own gone moved, (∀ request ∈ s.filePrepRequests, OfRequest own moved request) ∧
        (∀ link ∈ s.pendingSymlinks, own link.remotePath) ∧
        (relationship.deletePropagation.localToRemote = true → ∀ path, path ∈ w.store.files.paths ∨ own path →
          isDeletedLocally (pushContext relationship others mode config w) s.seenRemotePaths path = true → gone path) ∧
        ∀ event, OfPush own gone moved event → effect event) :
    ∃ new, (pushSync env relationship others mode w).2.log = new ++ w.log ∧ ∀ event ∈ new, effect event := by
  refine pushSync_framed (Q := fun next => ∃ new, next.log = new ++ w.log ∧ ∀ event ∈ new, effect event)
    (fun next begun => ⟨[], begun.log, fun _ inside => (List.not_mem_nil inside).elim⟩) fun config l entries s ready => ?_
  obtain ⟨own, gone, moved, requests, links, deletes, all⟩ := each config l entries s ready
  refine ⟨own, gone, moved, requests, links, deletes, fun next framed => ?_⟩
  obtain ⟨new, equal, mine⟩ := framed.log
  exact ⟨new, by rw [equal, ready.begun.log], fun event inside => all event (mine event inside)⟩

/-- The run has returned and reports no error. -/
def CompletesCleanly (outcome : Except ClientError PushResult) : Prop :=
  outcome.toOption.map PushResult.errors = some []

instance (outcome : Except ClientError PushResult) : Decidable (CompletesCleanly outcome) :=
  inferInstanceAs (Decidable (_ = _))

/-- What holds after every scan and its push holds of a push without errors. -/
theorem pushSync_clean {w : World ρ} {Q : PushResult → World ρ → Prop}
    (clean : CompletesCleanly (pushSync env relationship others mode w).1)
    (late : ∀ config l entries s, PushReady env relationship others mode w config l entries s →
      Triple (· = s) (pushScanned env (pushContext relationship others mode config w))
        (fun _ s => Q s.result s.world) (fun _ _ => True)) :
    ∃ result, result.errors = [] ∧ Q result (pushSync env relationship others mode w).2 := by
  have outcome := pushSync_triple (Q := Q) (E := fun _ _ => True) (fun _ _ _ => trivial) late w rfl
  rcases ended : pushSync env relationship others mode w with ⟨result, next⟩
  rw [ended] at outcome clean
  cases result with
  | error e => cases clean
  | ok result => exact ⟨result, Option.some.inj clean, outcome⟩

end AeordbSync

import AeordbSync.Pull.Containment
import AeordbSync.Isolation

namespace AeordbSync
open Characters OsPath FileSystem Effect

variable {ρ : Type} {env : Env ρ}

/-- The root of the child lies below that of the relationship and not the other way round. -/
def IsRemoteChild (relationship child : SyncRelationship) : Prop :=
  child.id ≠ relationship.id ∧ child.remoteConnectionId = relationship.remoteConnectionId ∧
    isUnderRemoteBase child.remotePath relationship.remotePath = true ∧
    isUnderRemoteBase relationship.remotePath child.remotePath = false

instance (relationship child : SyncRelationship) : Decidable (IsRemoteChild relationship child) :=
  inferInstanceAs (Decidable (_ ∧ _ ∧ _ ∧ _))

/-- The path lies under the root of the relationship and under the root of no child. -/
def InScope (relationship : SyncRelationship) (others : List SyncRelationship) (path : Text) : Prop :=
  isUnderRemoteBase path relationship.remotePath = true ∧
    ∀ child ∈ others, IsRemoteChild relationship child → isUnderRemoteBase path child.remotePath = false

instance (relationship : SyncRelationship) (others : List SyncRelationship) (path : Text) :
    Decidable (InScope relationship others path) :=
  inferInstanceAs (Decidable (_ ∧ ∀ child ∈ others, _))

/-- The remote entry for which a pull has an effect. -/
def Event.entryPath : Event ρ → Option Text
  | .localChange entry _ _ => some entry
  | .recorded record _ => some record.path
  | .forgotten path => some path
  | _ => none

/-- A local path or a record has been touched for the entry. -/
def Touches (before after : World ρ) (path : Text) : Prop :=
  ∃ new event, after.log = new ++ before.log ∧ event ∈ new ∧ event.entryPath = some path

/-- Local paths and records have been touched for entries of the scope only. -/
structure StaysInScope (relationship : SyncRelationship) (others : List SyncRelationship)
    (before after : World ρ) : Prop where
  grown : ∃ new, after.log = new ++ before.log
  inside : ∀ path, Touches before after path → InScope relationship others path

/-- An entry that no exclusion and no setting keeps from the pull. -/
def PullContext.Handles (globMatch : Text → Text → Bool) (ctx : PullContext) (changes : RemoteSyncChanges)
    (path : Text) : Prop :=
  ctx.Fetches globMatch changes path ∨ ctx.Links changes path ∨ ctx.Deletes changes path

/-- The root of a relationship is in its own scope. -/
theorem InScope.root (relationship : SyncRelationship) (others : List SyncRelationship) :
    InScope relationship others relationship.remotePath :=
  ⟨isUnderRemoteBase_self _, fun _ _ isChild => isChild.2.2.2⟩

/-- Two relationships of one engine with different roots have no path in common. -/
theorem InScope.apart {first second : SyncRelationship} {others : List SyncRelationship} {path : Text}
    (listed : first ∈ others ∧ second ∈ others) (differs : first.id ≠ second.id)
    (connected : first.remoteConnectionId = second.remoteConnectionId)
    (distinct : ¬ (isUnderRemoteBase second.remotePath first.remotePath = true ∧
      isUnderRemoteBase first.remotePath second.remotePath = true))
    (left : InScope first others path) : ¬ InScope second others path := by
  intro right
  have child : ∀ {outer inner : SyncRelationship}, outer.id ≠ inner.id →
      outer.remoteConnectionId = inner.remoteConnectionId → inner ∈ others →
      isUnderRemoteBase (trimEndMatches '/' inner.remotePath) outer.remotePath = true →
      isUnderRemoteBase outer.remotePath inner.remotePath = false →
      InScope outer others path → isUnderRemoteBase path inner.remotePath = true → False := by
    intro outer inner apart same inside under wider outside below
    have spared := outside.2 inner inside ⟨apart.symm, same.symm, isUnderRemoteBase_of_trimmed under, wider⟩
    rw [below] at spared
    cases spared
  rcases isUnderRemoteBase_nested left.1 right.1 with under | under
  · have wider : isUnderRemoteBase first.remotePath second.remotePath = false :=
      Bool.eq_false_iff.mpr fun both => distinct ⟨isUnderRemoteBase_of_trimmed under, both⟩
    exact child differs connected listed.2 under wider left right.1
  · have wider : isUnderRemoteBase second.remotePath first.remotePath = false :=
      Bool.eq_false_iff.mpr fun both => distinct ⟨both, isUnderRemoteBase_of_trimmed under⟩
    exact child differs.symm connected.symm listed.1 under wider right left.1

section Halted

/-- Only the first call of the disk is answered. -/
def halted (globMatch : Text → Text → Bool) : Env Shelf :=
  { shelfEnv with
    globMatch := globMatch
    diskFault := fun _ _ tick => if tick = 0 then none else some IoError.permissionDenied }

variable {globMatch : Text → Text → Bool} {ctx : PullContext} {path : Text} {D : Prop}

/-- The first call is over, and the entry is still to come or has been touched. -/
def Owed (path : Text) (due : Prop) (w : World Shelf) : Prop :=
  0 < w.tick ∧ (due ∨ ∃ event ∈ w.log, event.entryPath = some path)

theorem Owed.mono {E : Prop} {w : World Shelf} (owed : Owed path D w) (weaker : D → E) : Owed path E w :=
  ⟨owed.1, owed.2.imp_left weaker⟩

/-- One effect for an entry is what is owed to it. -/
theorem Owed.noted {other : Text} {w next : World Shelf} (owed : Owed path (D ∨ other = path) w) (event : Event Shelf)
    (log : next.log = event :: w.log) (later : 0 < next.tick) (about : event.entryPath = some other := by rfl) :
    Owed path D next := by
  refine ⟨later, ?_⟩
  rw [log]
  rcases owed.2 with (due | rfl) | ⟨done, inside, same⟩
  · exact Or.inl due
  · exact Or.inr ⟨event, List.mem_cons_self .., about⟩
  · exact Or.inr ⟨done, List.mem_cons_of_mem _ inside, same⟩

theorem deleteLocal_owed {follow : Bool} {failure what : String} {other : Text} (included : ctx.isExcluded path = false) :
    Triple (fun s : PullState Shelf => Owed path (D ∨ other = path) s.world)
      (deleteLocal (halted globMatch) ctx follow failure what other)
      (fun _ s => Owed path D s.world) (fun _ _ => False) := by
  refine Triple.ite (fun excluded => Triple.ret fun s before => ?_) fun _ => ?_
  · refine ⟨before.1, before.2.imp_left fun due => due.resolve_right fun same => ?_⟩
    rw [same, included] at excluded
    cases excluded
  · rintro ⟨⟨disk, store, remote, tick | tick, log⟩, p, k, f, d, l, b, errors⟩ before
    · cases before.1
    · exact before.noted (.forgotten other) rfl (Nat.succ_pos _)

/-- The first directory above a place is tried, and with it all is over. -/
theorem createParent_halted (entry : Text) (place : PathBuf) {w : World Shelf} (later : 0 < w.tick) :
    createParent (halted globMatch) entry place w = (.ok (.ok ()), w) ∨
      ∃ error tried next, createParent (halted globMatch) entry place w = (.ok (.error error), next) ∧
        next.log = .localChange entry .directory tried :: w.log ∧ 0 < next.tick := by
  unfold createParent
  cases parent place with
  | none => exact Or.inl rfl
  | some above =>
      unfold createDirAll
      dsimp only
      rcases (components above).reverse with _ | ⟨last, more⟩
      · exact Or.inl rfl
      · obtain ⟨disk, store, remote, tick | tick, log⟩ := w
        · cases later
        · exact Or.inr ⟨_, _, _, rfl, rfl, Nat.succ_pos _⟩

theorem createParent_owed {entry : Text} {place : PathBuf} :
    Triple (Owed path (D ∨ entry = path)) (createParent (halted globMatch) entry place)
      (fun r w => (r = .ok () ∧ Owed path (D ∨ entry = path) w) ∨ Owed path D w) (fun _ _ => False) := by
  intro w before
  have halts : createParent (halted globMatch) entry place w = _ ∨ _ := createParent_halted entry place before.1
  rcases halts with same | ⟨error, tried, next, same, log, later⟩
  · rw [same]
    exact Or.inl ⟨rfl, before⟩
  · rw [same]
    exact Or.inr (before.noted _ log later)

theorem pullSymlink_owed {entry : RemoteSyncSymlinkEntry} (included : ctx.isExcluded path = false) :
    Triple (fun s : PullState Shelf => Owed path (D ∨ entry.path = path) s.world)
      (pullSymlink (halted globMatch) ctx entry) (fun _ s => Owed path D s.world) (fun _ _ => False) := by
  refine Triple.ite (fun excluded => Triple.ret fun s before => ?_) fun _ => ?_
  · refine ⟨before.1, before.2.imp_left fun due => due.resolve_right fun same => ?_⟩
    rw [same, included] at excluded
    cases excluded
  refine Triple.bind (Q := fun r s => (r = .ok () ∧ Owed path (D ∨ entry.path = path) s.world) ∨ Owed path D s.world)
    ?_ fun r => ?_
  · exact Triple.zoom fun s before => createParent_owed.weaken fun _ same => same ▸ before
  cases r with
  | error error => exact Triple.modify fun s before => before.resolve_left fun impossible => by cases impossible.1
  | ok _ =>
      rintro ⟨⟨disk, store, remote, tick | tick, log⟩, p, k, f, d, l, b, errors⟩ before
      · rcases before with ⟨-, later, -⟩ | ⟨later, -⟩ <;> cases later
      · have owed : Owed path (D ∨ entry.path = path) ⟨disk, store, remote, tick + 1, log⟩ :=
          before.elim And.right fun done => ⟨done.1, done.2.imp_left Or.inl⟩
        exact owed.noted (.localChange entry.path .symlink _) rfl (Nat.succ_pos _)

theorem planEntry_owed {entry : RemoteSyncFileEntry} (included : ctx.isExcluded path = false) :
    Triple (fun s : PullState Shelf => Owed path (D ∨ (entry.path = path ∧ ctx.accepts globMatch path = true)) s.world)
      (planEntry (halted globMatch) ctx entry)
      (fun plan s => Owed path (D ∨ ∃ made ∈ plan, made.entry.path = path) s.world ∧
        ∀ made ∈ plan, made.localChunks = []) (fun _ _ => False) := by
  have nothing : ∀ made ∈ (none : Option FilePlan), made.localChunks = [] := fun _ impossible => by cases impossible
  unfold planEntry
  split
  next excluded =>
    refine Triple.bind (Q := fun _ s => Owed path D s.world) (Triple.modify fun s before => ?_) fun _ =>
      Triple.ret fun s before => ⟨before.mono Or.inl, nothing⟩
    refine before.mono fun due => due.resolve_right fun same => ?_
    rw [same.1, included] at excluded
    cases excluded
  next =>
    split
    next refused =>
      refine Triple.bind (Q := fun _ s => Owed path D s.world) (Triple.modify fun s before => ?_) fun _ =>
        Triple.ret fun s before => ⟨before.mono Or.inl, nothing⟩
      refine before.mono fun due => due.resolve_right fun same => ?_
      have accepted : ctx.accepts globMatch entry.path = true := same.1 ▸ same.2
      rw [show (halted globMatch).globMatch = globMatch from rfl, accepted] at refused
      cases refused
    next =>
      refine Triple.bind (Q := fun r s => (r = .ok () ∧ Owed path (D ∨ entry.path = path) s.world) ∨
        Owed path D s.world) ?_ fun r => ?_
      · exact Triple.zoom fun s before => createParent_owed.weaken fun _ same =>
          same ▸ before.mono fun due => due.imp_right And.left
      cases r with
      | error error =>
          refine Triple.bind (Q := fun _ s => Owed path D s.world) (Triple.modify fun s before => ?_) fun _ =>
            Triple.ret fun s before => ⟨before.mono Or.inl, nothing⟩
          exact before.resolve_left fun impossible => by cases impossible.1
      | ok _ =>
          rintro ⟨⟨disk, store, remote, tick | tick, log⟩, p, k, f, d, l, b, errors⟩ before
          · rcases before with ⟨-, later, -⟩ | ⟨later, -⟩ <;> cases later
          · have owed : Owed path (D ∨ entry.path = path) ⟨disk, store, remote, tick + 1, log⟩ :=
              before.elim And.right fun done => done.mono Or.inl
            have planned : ∀ made ∈ some (FilePlan.mk entry (ctx.localPathOf entry.path) []), made.localChunks = [] :=
              fun made same => by rw [← Option.some.inj same]
            refine ⟨⟨Nat.succ_pos _, ?_⟩, planned⟩
            exact owed.2.imp_left fun due => due.imp_right fun same => ⟨_, rfl, same⟩

theorem planEntries_owed {entries : List RemoteSyncFileEntry} (included : ctx.isExcluded path = false) :
    Triple (fun s : PullState Shelf => Owed path (D ∨ ∃ entry ∈ entries,
        entry.path = path ∧ ctx.accepts globMatch path = true) s.world)
      (planEntries (halted globMatch) ctx entries)
      (fun plans s => Owed path (D ∨ ∃ plan ∈ plans, plan.entry.path = path) s.world ∧
        ∀ plan ∈ plans, plan.localChunks = []) (fun _ _ => False) := by
  induction entries generalizing D with
  | nil =>
      refine Triple.ret fun s before => ⟨before.mono fun due => due.imp_right fun ⟨_, impossible, _⟩ => ?_, fun _ impossible => ?_⟩
      · cases impossible
      · cases impossible
  | cons entry rest ih =>
      refine Triple.bind ((planEntry_owed (D := D ∨ ∃ entry ∈ rest, entry.path = path ∧
        ctx.accepts globMatch path = true) included).weaken fun s before => before.mono ?_) fun first => ?_
      · rintro (due | ⟨other, inside, same⟩)
        · exact Or.inl (Or.inl due)
        · rcases List.mem_cons.mp inside with rfl | later
          · exact Or.inr same
          · exact Or.inl (Or.inr ⟨other, later, same⟩)
      · refine Triple.assume (fun _ holds => holds.2) fun fresh => ?_
        refine Triple.bind ((ih (D := D ∨ ∃ made ∈ first, made.entry.path = path)).weaken fun s before =>
          before.1.mono ?_) fun others => ?_
        · rintro ((due | later) | made)
          · exact Or.inl (Or.inl due)
          · exact Or.inr later
          · exact Or.inl (Or.inr made)
        · refine Triple.ret fun s before => ⟨before.1.mono ?_, fun plan inside => ?_⟩
          · rintro ((due | ⟨made, here, same⟩) | ⟨plan, inside, same⟩)
            · exact Or.inl due
            · exact Or.inr ⟨made, List.mem_append_left _ (by simpa using here), same⟩
            · exact Or.inr ⟨plan, List.mem_append_right _ inside, same⟩
          · rcases List.mem_append.mp inside with here | later
            · exact fresh plan (by simpa using here)
            · exact before.2 plan later

theorem fetchBatches_owed {batches : List (List Text)} :
    Triple (Owed path D) (fetchBatches (halted globMatch) batches) (fun fetched w => fetched.2 = none ∧ Owed path D w)
      (fun _ _ => False) := by
  induction batches with
  | nil => exact Triple.ret fun w before => ⟨rfl, before⟩
  | cons batch rest ih =>
      refine Triple.bind (Q := fun r w => (∃ pairs, r = .ok pairs) ∧ Owed path D w) (fun w before => ⟨⟨_, rfl⟩, before⟩) fun r => ?_
      refine Triple.assume (fun _ holds => holds.1) fun answered => ?_
      obtain ⟨pairs, rfl⟩ := answered
      exact Triple.bind (ih.weaken fun _ holds => holds.2) fun others => Triple.ret fun _ holds => holds

theorem assemblePlan_owed {fetched : List (Text × Bytes)} {plan : FilePlan} (fresh : plan.localChunks = []) :
    Triple (fun s : PullState Shelf => Owed path (D ∨ plan.entry.path = path) s.world)
      (assemblePlan (halted globMatch) fetched none plan) (fun _ s => Owed path D s.world) (fun _ _ => False) := by
  obtain ⟨entry, place, chunks⟩ := plan
  subst fresh
  rintro ⟨⟨disk, store, remote, tick | tick, log⟩, p, k, f, d, l, b, errors⟩ before
  · cases before.1
  · exact before.noted (.localChange entry.path .partialFile _) rfl (Nat.succ_pos _)

theorem forEach_owed {ι : Type} {xs : List ι} (key : ι → Text) {body : ι → PullProgram Shelf Unit}
    (each : ∀ (E : Prop), ∀ x ∈ xs, Triple (fun s => Owed path (E ∨ key x = path) s.world) (body x)
      (fun _ s => Owed path E s.world) (fun _ _ => False)) :
    Triple (fun s => Owed path (D ∨ ∃ x ∈ xs, key x = path) s.world) (Proc.forEach xs body)
      (fun _ s => Owed path D s.world) (fun _ _ => False) := by
  refine (Triple.forEach (fun rest (s : PullState Shelf) => Owed path (D ∨ ∃ x ∈ rest, key x = path) s.world) xs
    fun x rest suffix => ?_).strengthen fun _ s ended => ended.mono fun due => due.resolve_right ?_
  · refine (each (D ∨ ∃ y ∈ rest, key y = path) x (suffix.subset (List.mem_cons_self ..))).weaken fun s before =>
      before.mono ?_
    rintro (due | ⟨y, inside, same⟩)
    · exact Or.inl (Or.inl due)
    · rcases List.mem_cons.mp inside with rfl | later
      · exact Or.inr same
      · exact Or.inl (Or.inr ⟨y, later, same⟩)
  · rintro ⟨_, impossible, _⟩
    cases impossible

theorem pullFiles_owed {entries : List RemoteSyncFileEntry} (included : ctx.isExcluded path = false) :
    Triple (fun s : PullState Shelf => Owed path (D ∨ ∃ entry ∈ entries,
        entry.path = path ∧ ctx.accepts globMatch path = true) s.world)
      (pullFiles (halted globMatch) ctx entries) (fun _ s => Owed path D s.world) (fun _ _ => False) := by
  refine Triple.bind (planEntries_owed included) fun plans => ?_
  refine Triple.assume (fun _ holds => holds.2) fun fresh => ?_
  refine Triple.bind (Q := fun fetched (s : PullState Shelf) => fetched.2 = none ∧
    Owed path (D ∨ ∃ plan ∈ plans, plan.entry.path = path) s.world) ?_ fun fetched => ?_
  · refine Triple.zoom fun s before => Triple.bind (Q := fun _ => Owed path (D ∨ ∃ plan ∈ plans, plan.entry.path = path))
      (fun w same => ?_) fun needed => fetchBatches_owed
    subst same
    exact ⟨Nat.succ_pos _, before.1.2⟩
  · refine Triple.assume (fun _ holds => holds.1) fun answered => ?_
    rw [answered]
    exact (forEach_owed (fun plan : FilePlan => plan.entry.path) fun E plan inside =>
      assemblePlan_owed (fresh plan inside)).weaken fun _ holds => holds.2

theorem deletions_owed {deleted : List RemoteSyncDeletedEntry} {follow : Bool} {failure what : String}
    (included : ctx.isExcluded path = false) :
    Triple (fun s : PullState Shelf => Owed path (D ∨ ctx.relationship.deletePropagation.remoteToLocal = true ∧
        ∃ entry ∈ deleted, entry.path = path) s.world)
      (Proc.when ctx.relationship.deletePropagation.remoteToLocal (Proc.forEach deleted fun entry =>
        deleteLocal (halted globMatch) ctx follow failure what entry.path))
      (fun _ s => Owed path D s.world) (fun _ _ => False) := by
  refine Triple.when (fun propagates => ?_) fun idle s before => ?_
  · exact (forEach_owed RemoteSyncDeletedEntry.path fun E entry _ => deleteLocal_owed included).weaken
      fun s before => before.mono fun due => due.imp_right And.right
  · exact before.mono fun due => due.resolve_right fun asked => idle asked.1

/-- Every entry that a pull handles is touched, even where no call of the disk succeeds. -/
theorem pullChanges_owed {changes : RemoteSyncChanges} (handled : ctx.Handles globMatch changes path) :
    Triple (fun s : PullState Shelf => 0 < s.world.tick) (pullChanges (halted globMatch) ctx changes)
      (fun _ s => Owed path False s.world) (fun _ _ => False) := by
  have included : ctx.isExcluded path = false := by
    rcases handled with fetches | links | deletes
    · exact fetches.2.1
    · exact links.2
    · exact deletes.2.1
  refine Triple.seq (M := fun s : PullState Shelf => Owed path (((False ∨ _) ∨ _) ∨ _) s.world)
    ((pullFiles_owed included).weaken fun s later => ⟨later, Or.inl ?_⟩)
    (Triple.seq (deletions_owed included) (Triple.seq (forEach_owed RemoteSyncSymlinkEntry.path
      fun E entry _ => pullSymlink_owed included) (deletions_owed included)))
  rcases handled with ⟨⟨entry, inside, same⟩, -, accepted⟩ | ⟨links, -⟩ | ⟨⟨entry, inside, same⟩, -, propagates⟩
  · exact Or.inr ⟨entry, inside, same, accepted⟩
  · exact Or.inl (Or.inl (Or.inr links))
  · rcases List.mem_append.mp inside with file | symlink
    · exact Or.inl (Or.inr ⟨propagates, entry, file, same⟩)
    · exact Or.inl (Or.inl (Or.inl (Or.inr ⟨propagates, entry, symlink, same⟩)))

/-- A pull that finds its local base and nothing else touches every entry that it handles. -/
theorem pullSync_touches {relationship : SyncRelationship} {others : List SyncRelationship}
    {changes : RemoteSyncChanges} {disk : Tree} {node : Node} (usable : disk.metadata true relationship.localBase = .ok node)
    (handled : (PullContext.mk relationship others plainConfig).Handles globMatch changes path) :
    ∃ event ∈ (pullSync (halted globMatch) relationship others (offeredWorld disk changes)).2.log,
      event.entryPath = some path := by
  have begun : ensureLocalBase (halted globMatch) relationship (offeredWorld disk changes) =
      (.ok (), (offeredWorld disk changes).advance) := by
    have present : (halted globMatch).faulty .exists relationship.localBase (offeredWorld disk changes).tick
        ((offeredWorld disk changes).disk.metadata true relationship.localBase) = .ok node := usable
    unfold ensureLocalBase
    simp only [Proc.bind_apply, readDisk]
    rw [present]
    rfl
  have apply : Triple (fun s : PullState Shelf => 0 < s.world.tick)
      (applyDiff (halted globMatch) ⟨relationship, others, plainConfig⟩ ⟨text "next", changes⟩)
      (fun _ s => Owed path False s.world) (fun _ s => Owed path False s.world) := by
    refine Triple.bind ((pullChanges_owed handled).conseq (fun _ => id) (fun _ _ => id) fun _ _ => False.elim) fun _ => ?_
    refine Triple.zoom fun s owed => ?_
    rintro w rfl
    exact ⟨Nat.succ_pos _, owed.2⟩
  have run : Triple (· = offeredWorld disk changes) (pullSync (halted globMatch) relationship others)
      (fun _ w => Owed path False w) (fun _ w => Owed path False w) := by
    refine Triple.bind (Q := fun config w => config = plainConfig ∧ w = offeredWorld disk changes) ?_ fun config => ?_
    · rintro _ rfl
      exact ⟨rfl, rfl⟩
    refine Triple.assume (fun _ holds => holds.1) fun configured => ?_
    subst configured
    refine Triple.bind (Q := fun _ w => w = (offeredWorld disk changes).advance) ?_ fun _ => ?_
    · rintro _ ⟨-, rfl⟩
      rw [begun]
      rfl
    refine Triple.bind (Q := fun _ w => w = (offeredWorld disk changes).advance.advance) ?_ fun checkpoint => ?_
    · rintro _ rfl
      rfl
    refine Triple.bind (Q := fun diff w => diff = ⟨text "next", changes⟩ ∧ 0 < w.tick) ?_ fun diff => ?_
    · rintro _ rfl
      exact ⟨rfl, Nat.succ_pos _⟩
    refine Triple.assume (fun _ holds => holds.1) fun offered => ?_
    subst offered
    refine Triple.fix fun w before => runPull_triple (apply.weaken ?_)
    rintro _ rfl
    exact before.2
  exact (run.reached rfl).2.resolve_left id

end Halted

/-- A pull whose entries all lie in the scope touches nothing for another entry. -/
theorem pullSync_staysInScope {relationship : SyncRelationship} {others : List SyncRelationship} {w : World ρ}
    (within : ∀ config diff path, offeredDiff env w = .ok diff →
      (PullContext.mk relationship others config).Handles env.globMatch diff.changes path →
      InScope relationship others path) :
    StaysInScope relationship others w (pullSync env relationship others w).2 := by
  let scope : PullScope := ⟨fun entry _ _ => InScope relationship others entry, InScope relationship others,
    InScope relationship others⟩
  have framed : PullFramed scope w (pullSync env relationship others w).2 := by
    refine pullSync_framed (fun _ _ => InScope.root relationship others) fun config diff offered =>
      ⟨fun entry change path made => ?_, fun path stored => ?_, fun path gone => ?_⟩
    · apply within config diff entry offered
      exact made.imp And.left fun other => other.imp And.left And.left
    · exact within config diff path offered (stored.imp_right Or.inl)
    · exact within config diff path offered (Or.inr (Or.inr gone))
  obtain ⟨new, equal, all⟩ := framed.log
  refine ⟨⟨new, equal⟩, fun path touched => ?_⟩
  obtain ⟨more, event, same, inside, about⟩ := touched
  obtain rfl : new = more := List.append_cancel_right (equal.symm.trans same)
  have mine := all event inside
  cases event with
  | localChange entry change other => exact Option.some.inj about ▸ mine
  | recorded record remote => exact Option.some.inj about ▸ mine
  | forgotten other => exact Option.some.inj about ▸ mine
  | _ => cases about

/-- A pull stays in the scope of its relationship when every entry that it handles lies there, and only then where
the local base can exist. Relationships of one engine that stay in their scopes touch no entry in common. -/
theorem pullSync_staysInScope_iff (globMatch : Text → Text → Bool) (relationship : SyncRelationship)
    (others : List SyncRelationship) (config : BlobConfig) (changes : RemoteSyncChanges) :
    ((∀ path, (PullContext.mk relationship others config).Handles globMatch changes path →
        InScope relationship others path) →
      ∀ (ρ : Type) (env : Env ρ) (w : World ρ), env.globMatch = globMatch →
        (∀ diff, offeredDiff env w = .ok diff → diff.changes = changes) →
        StaysInScope relationship others w (pullSync env relationship others w).2) ∧
    ((∃ (disk : Tree) (node : Node), disk.metadata true relationship.localBase = .ok node) →
      (∀ (ρ : Type) (env : Env ρ) (w : World ρ), env.globMatch = globMatch →
        (∀ diff, offeredDiff env w = .ok diff → diff.changes = changes) →
        StaysInScope relationship others w (pullSync env relationship others w).2) →
      ∀ path, (PullContext.mk relationship others config).Handles globMatch changes path →
        InScope relationship others path) ∧
    (∀ sibling, relationship ∈ others ∧ sibling ∈ others → relationship.id ≠ sibling.id →
      relationship.remoteConnectionId = sibling.remoteConnectionId →
      ¬ (isUnderRemoteBase sibling.remotePath relationship.remotePath = true ∧
        isUnderRemoteBase relationship.remotePath sibling.remotePath = true) →
      ∀ (ρ : Type) (w next v last : World ρ), StaysInScope relationship others w next →
        StaysInScope sibling others v last → ∀ path, Touches w next path → ¬ Touches v last path) := by
  refine ⟨fun within ρ env w same offered => ?_, fun usable stays path handled => ?_, ?_⟩
  · refine pullSync_staysInScope fun config diff path answered handled => ?_
    rw [same, offered diff answered] at handled
    exact within path handled
  · obtain ⟨disk, node, present⟩ := usable
    obtain ⟨event, inside, about⟩ := pullSync_touches present handled
    have mine := stays Shelf (halted globMatch) (offeredWorld disk changes) rfl fun diff answered => by
      rw [← Except.ok.inj answered]
    exact mine.inside path ⟨_, event, (List.append_nil _).symm, inside, about⟩
  · intro sibling listed differs connected distinct ρ w next v last left right path first second
    exact (left.inside path first).apart listed differs connected distinct (right.inside path second)

/-- The engine lists what its user may read: a file of the relationship, one of a sibling and one whose path only
begins like the root. -/
def readableChanges : RemoteSyncChanges :=
  ⟨[noteEntry "/docs/note", noteEntry "/other/x", noteEntry "/docs-old/y"], [], [], [], [], []⟩

def otherRoot : List SyncRelationship := [docsRelationship none, vaultAt "/other/" "/vault"]

/-- Both siblings write the file of one of them, and one has the file of a directory that belongs to neither. -/
theorem pullSync_leavesScope :
    ¬ StaysInScope (docsRelationship none) otherRoot (offeredWorld Tree.bare readableChanges)
        (pullSync shelfEnv (docsRelationship none) otherRoot (offeredWorld Tree.bare readableChanges)).2 ∧
      (pullSync shelfEnv (docsRelationship none) otherRoot (offeredWorld Tree.bare readableChanges)).2.disk.read
        (ofText (osText (text "/home/other/x"))) = .ok [65] ∧
      (pullSync shelfEnv (docsRelationship none) otherRoot (offeredWorld Tree.bare readableChanges)).2.disk.read
        (ofText (osText (text "/home/-old/y"))) = .ok [65] ∧
      (pullSync shelfEnv (vaultAt "/other/" "/vault") otherRoot (offeredWorld Tree.bare readableChanges)).2.disk.read
        (ofText (osText (text "/vault/x"))) = .ok [65] := by
  refine ⟨fun stays => ?_, by decide +kernel, by decide +kernel, by decide +kernel⟩
  have touched : ∃ event ∈ (pullSync shelfEnv (docsRelationship none) otherRoot
      (offeredWorld Tree.bare readableChanges)).2.log, event.entryPath = some (text "/other/x") := by decide +kernel
  obtain ⟨event, inside, about⟩ := touched
  exact absurd (stays.inside _ ⟨_, event, (List.append_nil _).symm, inside, about⟩) (by decide)

/-- What the engine lists under the root is written there, and the sibling touches none of it. -/
theorem pullSync_staysInScope_iff_note :
    StaysInScope (docsRelationship none) otherRoot (offeredWorld Tree.bare stayingChanges)
      (pullSync shelfEnv (docsRelationship none) otherRoot (offeredWorld Tree.bare stayingChanges)).2 := by
  have offered : ∀ diff, offeredDiff shelfEnv (offeredWorld Tree.bare stayingChanges) = .ok diff →
      diff.changes = stayingChanges := fun diff same => by rw [← Except.ok.inj same]
  refine (pullSync_staysInScope_iff _ (docsRelationship none) otherRoot plainConfig stayingChanges).1 ?_ Shelf shelfEnv
    (offeredWorld Tree.bare stayingChanges) rfl offered
  rintro path (⟨⟨entry, inside, rfl⟩, -⟩ | ⟨⟨entry, inside, rfl⟩, -⟩ | ⟨⟨entry, inside, rfl⟩, -⟩)
  · rw [List.mem_singleton.mp inside]
    decide
  · rw [List.mem_singleton.mp inside]
    decide
  · rw [List.mem_singleton.mp inside]
    decide

end AeordbSync

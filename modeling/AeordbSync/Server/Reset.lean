import AeordbSync.Server.Currency

namespace AeordbSync
open Characters OsPath Server

variable {σ base after : Server} {token : Nat} {rest : List Operation} {fails : Bool} {moment : Int}
  {operation : Operation} {id : Text} {version : Nat}

def SyncRelationship.SameRoots (relationship other : SyncRelationship) : Prop :=
  relationship.localPath = other.localPath ∧ relationship.remotePath = other.remotePath

theorem SyncRelationship.SameRoots.trans {first second third : SyncRelationship}
    (left : first.SameRoots second) (right : second.SameRoots third) : first.SameRoots third :=
  ⟨left.1.trans right.1, left.2.trans right.2⟩

theorem SyncRelationship.sameRoots_updated {current : SyncRelationship}
    {request : UpdateSyncRelationshipRequest} (kept : current.pathsChanged request = false) :
    current.SameRoots (current.updated request) := by
  simp only [pathsChanged, Bool.or_eq_false_iff, decide_eq_false_iff_not, not_not] at kept
  exact ⟨kept.1.symm, kept.2.symm⟩

def SyncStore.Done (store : SyncStore) : ResetWrite → Prop
  | .clearCheckpoint => store.checkpoint = none
  | .clearFiles => store.files = []
  | .storeMigration | .clearMigration => True

namespace Server

/-- The copy has the roots of the configuration and is no older than their last change. -/
def AtRoot (σ : Server) (source : Captured) : Prop :=
  (∀ current, σ.config.get source.id = some current → source.relationship.SameRoots current) ∧
    ∀ saved, σ.rooted source.id = some saved → saved.version ≤ source.version

/-- A request is still to do the write for the relationship. -/
def Pending (σ : Server) (id : Text) (write : ResetWrite) : Prop :=
  ∃ token existing updated writes, .reset existing updated writes ∈ σ.requests token ∧
    updated.id = id ∧ write ∈ writes

/-- What is in use or stored belongs to the roots of now, unless a reset that takes it away is pending. -/
structure Rooted (σ : Server) : Prop where
  copies : ∀ source, σ.InUse true source → σ.AtRoot source
  saved : ∀ id saved, σ.rooted id = some saved → saved.version ≤ σ.versions id
  checkpoint : ∀ id source, (σ.stores id).checkpoint = some source →
    source.id = id ∧ (σ.Pending id .clearCheckpoint ∨ σ.AtRoot source)
  files : ∀ id, ∀ entry ∈ (σ.stores id).files, entry.2.id = id ∧
    ∀ saved, σ.rooted id = some saved → saved.relationship.direction.canPush = false →
      σ.Pending id .clearFiles ∨ σ.AtRoot entry.2

/-- A step that changes no roots. -/
structure RootsKept (σ after : Server) : Prop where
  config : ∀ id current, after.config.get id = some current →
    ∃ old, σ.config.get id = some old ∧ old.SameRoots current
  rooted : after.rooted = σ.rooted
  versions : ∀ id, σ.versions id ≤ after.versions id

theorem AtRoot.kept {source : Captured} (atRoot : σ.AtRoot source) (roots : RootsKept σ after) :
    after.AtRoot source := by
  refine ⟨fun current present => ?_, fun saved stored => ?_⟩
  · obtain ⟨old, before, same⟩ := roots.config source.id current present
    exact (atRoot.1 old before).trans same
  · exact atRoot.2 saved (roots.rooted ▸ stored)

theorem Rooted.current (rooted : Rooted σ) {source : Captured} (current : σ.CurrentCopy source) :
    σ.AtRoot source := by
  obtain ⟨present, -, version⟩ := current
  refine ⟨fun other stored => ?_, fun saved stored => ?_⟩
  · rw [present, Option.some.injEq] at stored
    rw [stored]
    exact ⟨rfl, rfl⟩
  · rw [version]
    exact rooted.saved source.id saved stored

theorem Rooted.copies_kept (rooted : Rooted σ) (copies : CopiesStep σ after) (roots : RootsKept σ after)
    (source : Captured) (used : after.InUse true source) : after.AtRoot source := by
  rcases copies.inUse used with old | current
  · exact (rooted.copies source old).kept roots
  · exact (rooted.current current).kept roots

/-- What a step may do to the stores while the roots stay: it adds what a copy in use writes, and a reset
that is no longer pending is done. -/
structure StoresStep (σ after : Server) : Prop where
  checkpoint : ∀ id source, (after.stores id).checkpoint = some source →
    (σ.stores id).checkpoint = some source ∨ (source.id = id ∧ σ.AtRoot source)
  files : ∀ id, ∀ entry ∈ (after.stores id).files,
    entry ∈ (σ.stores id).files ∨ (entry.2.id = id ∧ σ.AtRoot entry.2)
  pending : ∀ id write, σ.Pending id write → after.Pending id write ∨ (after.stores id).Done write

theorem Rooted.kept (rooted : Rooted σ) (copies : CopiesStep σ after) (roots : RootsKept σ after)
    (stores : StoresStep σ after) : Rooted after where
  copies := rooted.copies_kept copies roots
  saved id saved stored := (rooted.saved id saved (roots.rooted ▸ stored)).trans (roots.versions id)
  checkpoint id source stored := by
    rcases stores.checkpoint id source stored with old | ⟨mine, atRoot⟩
    · obtain ⟨mine, pending | atRoot⟩ := rooted.checkpoint id source old
      · refine ⟨mine, Or.inl ((stores.pending id _ pending).resolve_right fun done => ?_)⟩
        have none : (after.stores id).checkpoint = none := done
        rw [none] at stored
        cases stored
      · exact ⟨mine, Or.inr (atRoot.kept roots)⟩
    · exact ⟨mine, Or.inr (atRoot.kept roots)⟩
  files id entry inside := by
    rcases stores.files id entry inside with old | ⟨mine, atRoot⟩
    · obtain ⟨mine, rest⟩ := rooted.files id entry old
      refine ⟨mine, fun saved stored pulls => ?_⟩
      rcases rest saved (roots.rooted ▸ stored) pulls with pending | atRoot
      · refine Or.inl ((stores.pending id _ pending).resolve_right fun done => ?_)
        have none : (after.stores id).files = [] := done
        rw [none] at inside
        cases inside
      · exact Or.inr (atRoot.kept roots)
    · exact ⟨mine, fun _ _ _ => Or.inr (atRoot.kept roots)⟩

theorem RootsKept.of_same (same : SameBooks σ after) : RootsKept σ after where
  config _ current present := ⟨current, same.config ▸ present, rfl, rfl⟩
  rooted := same.rooted
  versions id := by rw [same.versions]

/-- The stores are the same and no reset is given up. -/
theorem StoresStep.of_same (stores : after.stores = σ.stores)
    (pending : ∀ id write, σ.Pending id write → after.Pending id write) : StoresStep σ after where
  checkpoint _ _ stored := Or.inl (stores ▸ stored)
  files _ _ inside := Or.inl (stores ▸ inside)
  pending id write waits := Or.inl (pending id write waits)

/-- Only the first operation of the request that goes on may be given up. -/
theorem pending_or_first {new : List Operation} (here : σ.requests token = operation :: rest)
    (requests : after.requests = Function.update σ.requests token (new ++ rest)) {id : Text}
    {write : ResetWrite} (pending : σ.Pending id write) : after.Pending id write ∨
      ∃ existing updated writes, operation = .reset existing updated writes ∧ updated.id = id ∧
        write ∈ writes := by
  obtain ⟨moved, existing, updated, writes, inside, mine, among⟩ := pending
  by_cases same : moved = token
  · subst same
    rw [here] at inside
    rcases List.mem_cons.mp inside with first | later
    · exact Or.inr ⟨existing, updated, writes, first.symm, mine, among⟩
    · refine Or.inl ⟨moved, existing, updated, writes, ?_, mine, among⟩
      rw [requests, Function.update_self]
      exact List.mem_append_right _ later
  · refine Or.inl ⟨moved, existing, updated, writes, ?_, mine, among⟩
    rwa [requests, Function.update_of_ne same]

theorem pending_moved {new : List Operation} (here : σ.requests token = operation :: rest)
    (requests : after.requests = Function.update σ.requests token (new ++ rest))
    (reset : ∀ existing updated writes, operation ≠ .reset existing updated writes)
    (id : Text) (write : ResetWrite) (pending : σ.Pending id write) : after.Pending id write := by
  refine (pending_or_first here requests pending).resolve_right ?_
  rintro ⟨existing, updated, writes, equal, -⟩
  exact reset existing updated writes equal

theorem pending_of_requests (requests : after.requests = σ.requests) (id : Text) (write : ResetWrite)
    (pending : σ.Pending id write) : after.Pending id write := by
  unfold Pending
  rwa [requests]

/-- A save of the roots finds nothing in use of the relationship, and it orders what it has made old to be
taken away. -/
theorem Rooted.saving (rooted : Rooted σ) (saved : Captured) (copies : CopiesStep σ after)
    (own : saved.id = id) (current : after.config.get id = some saved.relationship)
    (others : ∀ other, other ≠ id → after.config.get other = σ.config.get other)
    (versions : ∀ other, σ.versions other ≤ after.versions other) (version : saved.version = after.versions id)
    (roots : after.rooted = Function.update σ.rooted id (some saved))
    (stores : after.stores = σ.stores) (pending : ∀ id write, σ.Pending id write → after.Pending id write)
    (unused : ∀ source, after.InUse true source → source.id ≠ id)
    (checkpoint : after.Pending id .clearCheckpoint)
    (files : saved.relationship.direction.canPush = false → after.Pending id .clearFiles) : Rooted after := by
  have kept : ∀ source, source.id ≠ id → σ.AtRoot source → after.AtRoot source := by
    intro source away atRoot
    refine ⟨fun relationship present => atRoot.1 relationship (others source.id away ▸ present),
      fun last stored => atRoot.2 last ?_⟩
    rwa [roots, Function.update_of_ne away] at stored
  refine ⟨fun source used => ?_, fun other last stored => ?_, fun other source stored => ?_,
    fun other entry inside => ?_⟩
  · refine kept source (unused source used) ?_
    rcases copies.inUse used with old | fresh
    · exact rooted.copies source old
    · exact rooted.current fresh
  · by_cases same : other = id
    · subst same
      rw [roots, Function.update_self, Option.some.injEq] at stored
      exact stored ▸ version.le
    · rw [roots, Function.update_of_ne same] at stored
      exact (rooted.saved other last stored).trans (versions other)
  · rw [stores] at stored
    obtain ⟨mine, before⟩ := rooted.checkpoint other source stored
    refine ⟨mine, ?_⟩
    by_cases same : other = id
    · exact Or.inl (same ▸ checkpoint)
    · exact before.imp (pending other _) (kept source (mine ▸ same))
  · rw [stores] at inside
    obtain ⟨mine, before⟩ := rooted.files other entry inside
    refine ⟨mine, fun last stored pulls => ?_⟩
    by_cases same : other = id
    · subst same
      rw [roots, Function.update_self, Option.some.injEq] at stored
      exact Or.inl (files (stored ▸ pulls))
    · rw [roots, Function.update_of_ne same] at stored
      exact (before last stored pulls).imp (pending other _) (kept entry.2 (mine ▸ same))

end Server

theorem unlocked_stores (σ : Server) (locked : Bool) : (σ.unlocked locked).stores = σ.stores := by
  cases locked <;> rfl

theorem updatedBy_stores (σ : Server) (id : Text) (request : UpdateSyncRelationshipRequest) :
    (σ.updatedBy id request).stores = σ.stores := by
  unfold updatedBy
  split <;> rfl

/-- Only a reset and the preparation of a forced sync touch the stores. -/
theorem operate_stores (reset : ∀ existing updated writes, operation ≠ .reset existing updated writes)
    (prepare : ∀ source force, operation ≠ .prepare source force)
    (taken : operate σ token rest fails moment operation = some after) : after.stores = σ.stores := by
  cases operation with
  | reset existing updated writes => exact absurd rfl (reset existing updated writes)
  | prepare source force => exact absurd rfl (prepare source force)
  | persist id request existing wasRunning =>
      simp only [operate] at taken
      split at taken <;> cases taken
      · rfl
      · exact updatedBy_stores ..
  | await handle locked =>
      simp only [operate] at taken
      split at taken <;> cases taken
      exact unlocked_stores ..
  | syncing source => cases taken
  | _ =>
      simp only [operate] at taken
      repeat' split at taken
      all_goals first
        | cases taken; rfl
        | cases taken

namespace Server

/-- The handler notices every change of the roots that it saves, then nothing of the relationship is in use,
and no write of a reset that takes something away fails. -/
def RootsAtRest (σ : Server) : Action → Prop
  | .advance token fails _ => ∀ operation rest, σ.requests token = operation :: rest →
      (∀ id request existing wasRunning current, operation = .persist id request existing wasRunning →
        fails = false → σ.config.get id = some current → current.pathsChanged request = true →
          existing.pathsChanged request = true ∧ ∀ source, σ.InUse true source → source.id ≠ id) ∧
      ∀ existing updated write later, operation = .reset existing updated (write :: later) → fails = true →
        .clearCheckpoint ∉ write :: later ∧ .clearFiles ∉ write :: later
  | _ => True

theorem rootsKept_saved {request : UpdateSyncRelationshipRequest}
    (same : ∀ current, σ.config.get id = some current → current.SameRoots (current.updated request)) :
    RootsKept σ (σ.saved id request) where
  config other current present := by
    have after : (σ.config.update id request).get other = some current := present
    rw [Config.get_update] at after
    split at after
    next equal =>
      subst equal
      obtain ⟨old, before, rfl⟩ := Option.map_eq_some_iff.mp after
      exact ⟨old, before, same old before⟩
    · exact ⟨current, after, rfl, rfl⟩
  rooted := rfl
  versions := (recorded_saved σ id request).versions_le

theorem rootsKept_removed (σ : Server) (id : Text) : RootsKept σ (σ.removed id) where
  config other current present := by
    have after : (σ.config.delete id).get other = some current := present
    rw [Config.get_delete] at after
    split at after
    · cases after
    · exact ⟨current, after, rfl, rfl⟩
  rooted := rfl
  versions := (recorded_removed σ id).versions_le

theorem RootsKept.next (roots : RootsKept σ base) (token : Nat) (operations : List Operation) :
    RootsKept σ (base.next token operations) :=
  ⟨roots.config, roots.rooted, roots.versions⟩

/-- A request goes on, and its first operation has no part in a reset. -/
theorem Rooted.moved (rooted : Rooted σ) (new : List Operation) (here : σ.requests token = operation :: rest)
    (reset : ∀ existing updated writes, operation ≠ .reset existing updated writes)
    (copies : CopiesStep σ (base.next token (new ++ rest))) (roots : RootsKept σ base)
    (requests : base.requests = σ.requests) (stores : base.stores = σ.stores) :
    Rooted (base.next token (new ++ rest)) := by
  have requests : (base.next token (new ++ rest)).requests = Function.update σ.requests token (new ++ rest) := by
    rw [Server.next, requests]
  exact rooted.kept copies (roots.next token _) (.of_same stores (pending_moved here requests reset))

theorem mem_resetWrites (updated : SyncRelationship) : .clearCheckpoint ∈ resetWrites updated := by
  unfold resetWrites
  split <;> simp

/-- A save whose handler has seen the roots change. -/
theorem Rooted.rerooted (rooted : Rooted σ) {request : UpdateSyncRelationshipRequest}
    {existing : SyncRelationship} {wasRunning : Bool} {current : SyncRelationship}
    (here : σ.requests token = .persist id request existing wasRunning :: rest)
    (present : σ.config.get id = some current) (moves : current.pathsChanged request = true)
    (unused : ∀ source, σ.InUse true source → source.id ≠ id)
    (copies : CopiesStep σ ((σ.updatedBy id request).next token
      (afterSave (σ.updatedBy id request) id existing true ++ rest))) :
    Rooted ((σ.updatedBy id request).next token
      (afterSave (σ.updatedBy id request) id existing true ++ rest)) := by
  have recorded := recorded_updatedBy σ id request
  have known : (σ.updatedBy id request).config.get id = some (current.updated request) := by
    have config : (σ.updatedBy id request).config = σ.config.update id request := by
      unfold updatedBy
      split <;> rfl
    rw [config, Config.get_update, if_pos rfl, present, Option.map_some]
  have named : (current.updated request).id = id := Config.id_of_get known
  have saved : afterSave (σ.updatedBy id request) id existing true =
      [.reset existing ⟨current.updated request, (σ.updatedBy id request).versions id⟩
        (resetWrites (current.updated request))] := by
    unfold afterSave
    rw [known]
    rfl
  rw [saved] at copies ⊢
  have orders : ∀ write ∈ resetWrites (current.updated request), ((σ.updatedBy id request).next token
      ([.reset existing ⟨current.updated request, (σ.updatedBy id request).versions id⟩
        (resetWrites (current.updated request))] ++ rest)).Pending id write := by
    intro write among
    refine ⟨token, existing, ⟨current.updated request, (σ.updatedBy id request).versions id⟩, _, ?_,
      named, among⟩
    simp [Server.next]
  refine rooted.saving ⟨current.updated request, _⟩ copies named known recorded.others
    recorded.versions_le rfl ?_ (updatedBy_stores ..) ?_ ?_ (orders _ (mem_resetWrites _)) fun pulls => orders _ ?_
  · show (σ.updatedBy id request).rooted = _
    have rewritten : σ.updatedBy id request = (σ.saved id request).rootedAt id := by
      unfold updatedBy
      rw [present, Option.any_some, if_pos moves]
    have stored : (σ.saved id request).config.get id = some (current.updated request) := by
      rw [← known, rewritten]
      rfl
    rw [rewritten]
    show Function.update σ.rooted id (((σ.saved id request).config.get id).map _) = _
    rw [stored]
    rfl
  · exact pending_moved here (by rw [Server.next, recorded.requests]) fun _ _ _ => by simp
  · intro source used
    refine unused source (inUse_saved here recorded ?_ used)
    simp [Operation.manual, Operation.plain]
  · unfold resetWrites
    rw [if_neg (by simp [show SyncDirection.canPush _ = false from pulls])]
    simp

end Server

section Writes

variable (store : SyncStore) (existing updated : SyncRelationship) (moment : Int) (write : ResetWrite)

theorem SyncStore.done_afterWrite : (store.afterWrite existing updated moment write).Done write := by
  cases write <;> trivial

theorem SyncStore.checkpoint_afterWrite {source : Captured}
    (stored : (store.afterWrite existing updated moment write).checkpoint = some source) :
    store.checkpoint = some source := by
  cases write <;> first | exact stored | cases stored

theorem SyncStore.files_afterWrite {entry : Text × Captured}
    (inside : entry ∈ (store.afterWrite existing updated moment write).files) : entry ∈ store.files := by
  cases write <;> first | exact inside | cases inside

end Writes

namespace Server

/-- A write to one store that only takes things away. -/
theorem StoresStep.of_setStore {store : SyncStore} (stores : after.stores = Function.update σ.stores id store)
    (checkpoint : ∀ source, store.checkpoint = some source → (σ.stores id).checkpoint = some source)
    (files : ∀ entry ∈ store.files, entry ∈ (σ.stores id).files)
    (pending : ∀ other write, σ.Pending other write →
      after.Pending other write ∨ (after.stores other).Done write) : StoresStep σ after where
  checkpoint other source stored := by
    rw [stores] at stored
    by_cases same : other = id
    · subst same
      rw [Function.update_self] at stored
      exact Or.inl (checkpoint source stored)
    · rw [Function.update_of_ne same] at stored
      exact Or.inl stored
  files other entry inside := by
    rw [stores] at inside
    by_cases same : other = id
    · subst same
      rw [Function.update_self] at inside
      exact Or.inl (files entry inside)
    · rw [Function.update_of_ne same] at inside
      exact Or.inl inside
  pending := pending

/-- A write of a reset is done when it no longer is to be done. -/
theorem Rooted.resetting (rooted : Rooted σ) {existing : SyncRelationship} {updated : Captured}
    {writes : List ResetWrite} (copies : CopiesStep σ after)
    (here : σ.requests token = .reset existing updated writes :: rest)
    (works : ∀ write later, writes = write :: later → fails = true →
      .clearCheckpoint ∉ writes ∧ .clearFiles ∉ writes)
    (taken : operate σ token rest fails moment (.reset existing updated writes) = some after) :
    Rooted after := by
  simp only [operate] at taken
  split at taken
  · cases taken
    refine rooted.kept copies ((RootsKept.of_same (.refl σ)).next token _)
      ⟨fun _ _ => Or.inl, fun _ _ => Or.inl, fun id write pending => Or.inl ?_⟩
    refine (pending_or_first here rfl pending).resolve_right ?_
    rintro ⟨_, _, _, equal, -, among⟩
    cases equal
    cases among
  next write later =>
    split at taken
    next failed =>
      cases taken
      obtain ⟨checkpoint, files⟩ := works write later rfl failed
      have requests : (σ.next token (.settle updated.id updated.version :: rest)).requests =
          Function.update σ.requests token ([.settle updated.id updated.version] ++ rest) := rfl
      refine rooted.kept copies ((RootsKept.of_same (.refl σ)).next token _)
        ⟨fun _ _ => Or.inl, fun _ _ => Or.inl, fun id other pending => ?_⟩
      refine (pending_or_first here requests pending).imp_right ?_
      rintro ⟨_, _, _, equal, -, among⟩
      cases equal
      cases other with
      | clearCheckpoint => exact absurd among checkpoint
      | clearFiles => exact absurd among files
      | storeMigration => trivial
      | clearMigration => trivial
    next =>
      cases taken
      have roots : RootsKept σ (σ.setStore updated.id
          ((σ.stores updated.id).afterWrite existing updated.relationship moment write)) :=
        .of_same ⟨rfl, rfl, rfl, rfl, rfl⟩
      refine rooted.kept copies (roots.next token _) (.of_setStore rfl
        (fun _ stored => SyncStore.checkpoint_afterWrite _ _ _ _ _ stored)
        (fun _ inside => SyncStore.files_afterWrite _ _ _ _ _ inside) fun id other pending => ?_)
      have requests : ((σ.setStore updated.id ((σ.stores updated.id).afterWrite existing updated.relationship
          moment write)).next token (.reset existing updated later :: rest)).requests =
          Function.update σ.requests token ([.reset existing updated later] ++ rest) := rfl
      rcases pending_or_first here requests pending with still | ⟨_, _, _, equal, mine, among⟩
      · exact Or.inl still
      · cases equal
        rcases List.mem_cons.mp among with rfl | rest
        · refine Or.inr ?_
          subst mine
          simp only [Server.next, setStore, Function.update_self]
          exact SyncStore.done_afterWrite ..
        · refine Or.inl ⟨token, existing, updated, later, ?_, mine, rest⟩
          simp [Server.next]

theorem Rooted.preparing (rooted : Rooted σ) {source : Captured} {force : Bool} (copies : CopiesStep σ after)
    (here : σ.requests token = .prepare source force :: rest)
    (taken : operate σ token rest fails moment (.prepare source force) = some after) : Rooted after := by
  have kept : ∀ {new : List Operation} {later : Server},
      later.requests = Function.update σ.requests token (new ++ rest) →
      ∀ id write, σ.Pending id write → later.Pending id write :=
    fun requests => pending_moved here requests (by simp)
  simp only [operate] at taken
  split at taken
  · cases taken
    have requests : ((σ.withGuard source.id false).next token rest).requests =
        Function.update σ.requests token ([] ++ rest) := rfl
    exact rooted.kept copies (.of_same ⟨rfl, rfl, rfl, rfl, rfl⟩) (.of_same rfl (kept requests))
  · split at taken
    · cases taken
      have requests : ((σ.setStore source.id { σ.stores source.id with checkpoint := none }).next token
          (.call source :: rest)).requests =
          Function.update σ.requests token ([Operation.call source] ++ rest) := rfl
      refine rooted.kept copies (.of_same ⟨rfl, rfl, rfl, rfl, rfl⟩) (.of_setStore rfl
        (fun _ impossible => by cases impossible) (fun _ => id) fun id write pending => Or.inl ?_)
      exact kept requests id write pending
    · cases taken
      have requests : (σ.next token (.call source :: rest)).requests =
          Function.update σ.requests token ([Operation.call source] ++ rest) := rfl
      exact rooted.kept copies (.of_same ⟨rfl, rfl, rfl, rfl, rfl⟩) (.of_same rfl (kept requests))

theorem Rooted.persisting (rooted : Rooted σ) {request : UpdateSyncRelationshipRequest}
    {existing : SyncRelationship} {wasRunning : Bool} (copies : CopiesStep σ after)
    (here : σ.requests token = .persist id request existing wasRunning :: rest)
    (atRest : ∀ current, fails = false → σ.config.get id = some current → current.pathsChanged request = true →
      existing.pathsChanged request = true ∧ ∀ source, σ.InUse true source → source.id ≠ id)
    (taken : operate σ token rest fails moment (.persist id request existing wasRunning) = some after) :
    Rooted after := by
  have noReset : ∀ other updated writes,
      Operation.persist id request existing wasRunning ≠ .reset other updated writes := by simp
  simp only [operate] at taken
  split at taken
  · cases taken
    exact rooted.moved _ here noReset copies (.of_same (.refl σ)) rfl rfl
  next works =>
    cases taken
    have succeeds : fails = false := by simpa using fun failed => works (Or.inl failed)
    obtain ⟨current, present⟩ := Option.ne_none_iff_exists'.mp fun unknown => works (Or.inr unknown)
    cases moves : current.pathsChanged request with
    | true =>
        obtain ⟨noticed, unused⟩ := atRest current succeeds present moves
        rw [noticed] at copies ⊢
        exact rooted.rerooted here present moves unused copies
    | false =>
        have plain : σ.updatedBy id request = σ.saved id request := by
          unfold updatedBy
          rw [present, Option.any_some, if_neg (by simp [moves])]
        rw [plain] at copies ⊢
        refine rooted.moved _ here noReset copies (rootsKept_saved fun other stored => ?_) rfl rfl
        rw [present, Option.some.injEq] at stored
        exact stored ▸ SyncRelationship.sameRoots_updated moves

theorem Rooted.operate (rooted : Rooted σ) (here : σ.requests token = operation :: rest)
    (atRest : σ.RootsAtRest (.advance token fails moment))
    (taken : AeordbSync.operate σ token rest fails moment operation = some after) : Rooted after := by
  have copies := operate_copies here taken
  obtain ⟨persists, resets⟩ := atRest operation rest here
  cases operation with
  | reset existing updated writes =>
      exact rooted.resetting copies here (fun write later equal failed =>
        equal ▸ resets existing updated write later (equal ▸ rfl) failed) taken
  | prepare source force => exact rooted.preparing copies here taken
  | persist id request existing wasRunning =>
      exact rooted.persisting copies here (fun current => persists id request existing wasRunning current rfl)
        taken
  | setEnabled id enabled =>
      simp only [AeordbSync.operate] at taken
      split at taken
      · cases taken
        exact rooted.moved [] here (by simp) copies (.of_same (.refl σ)) rfl rfl
      · cases taken
        refine rooted.moved [_, _] here (by simp) copies ?_ rfl rfl
        exact rootsKept_saved fun current _ => ⟨rfl, rfl⟩
  | remove id =>
      simp only [AeordbSync.operate] at taken
      split at taken
      · cases taken
        exact rooted.moved [] here (by simp) copies (.of_same (.refl σ)) rfl rfl
      · cases taken
        exact rooted.moved [_] here (by simp) copies (rootsKept_removed σ id) rfl rfl
  | settle id version =>
      cases taken
      exact rooted.moved [] here (by simp) copies ⟨fun _ current present => ⟨current, present, rfl, rfl⟩, rfl,
        fun _ => Nat.le_refl _⟩ rfl rfl
  | _ =>
      have stores := operate_stores (by simp) (by simp) taken
      obtain ⟨base, new, rfl, same, requests, -⟩ := operate_quiet rfl taken
      exact rooted.moved new here (by simp) copies (.of_same same) requests stores

theorem inUse_of_inSync {worker : Worker} {kind : SyncKind} {source : Captured}
    (inSync : σ.inSync worker = some (kind, source)) : σ.InUse true source := by
  cases worker with
  | loop handle =>
      simp only [Server.inSync] at inSync
      split at inSync
      next loopSource kind syncing aborted found =>
        cases inSync
        exact Or.inl ⟨handle, _, found, by simp [SyncLoop.copies]⟩
      · cases inSync
  | request token =>
      simp only [Server.inSync] at inSync
      split at inSync
      next syncing rest here =>
        cases inSync
        exact Or.inr (Or.inl ⟨token, _, here ▸ List.mem_cons_self .., rfl⟩)
      · cases inSync

/-- A step of a loop or of the runtime. -/
theorem Rooted.unmoved (rooted : Rooted σ) (copies : CopiesStep σ after) (same : SameBooks σ after)
    (stores : after.stores = σ.stores) (requests : after.requests = σ.requests) : Rooted after :=
  rooted.kept copies (.of_same same) (.of_same stores (pending_of_requests requests))

theorem Rooted.step {action : Action} (rooted : Rooted σ) (atRest : σ.RootsAtRest action)
    (stepped : Stepped σ action after) : Rooted after := by
  have copies := stepped.copies
  cases stepped with
  | @received token operation empty request =>
      refine rooted.kept copies ((RootsKept.of_same (.refl σ)).next token _)
        (.of_same rfl fun id write pending => ?_)
      obtain ⟨moved, existing, updated, writes, inside, mine, among⟩ := pending
      have away : moved ≠ token := by
        rintro rfl
        rw [empty] at inside
        cases inside
      exact ⟨moved, existing, updated, writes, by simpa [Server.next, away] using inside, mine, among⟩
  | operated here taken => exact rooted.operate here atRest taken
  | @timedOut token handle locked rest here =>
      exact rooted.moved [] here (by simp) copies (.of_same (sameBooks_unlocked σ locked))
        (requests_unlocked σ locked) (unlocked_stores σ locked)
  | queued => exact rooted.unmoved copies ⟨rfl, rfl, rfl, rfl, rfl⟩ rfl rfl
  | left => exact rooted.unmoved copies ⟨rfl, rfl, rfl, rfl, rfl⟩ rfl rfl
  | skipped => exact rooted
  | begun => exact rooted.unmoved copies ⟨rfl, rfl, rfl, rfl, rfl⟩ rfl rfl
  | dropped => exact rooted.unmoved copies ⟨rfl, rfl, rfl, rfl, rfl⟩ rfl rfl
  | @wrote action worker kind source store inSync checkpoint files =>
      have atRoot := rooted.copies source (inUse_of_inSync inSync)
      refine rooted.kept copies (.of_same ⟨rfl, rfl, rfl, rfl, rfl⟩) ⟨fun id written stored => ?_,
        fun id entry inside => ?_, fun id write pending => Or.inl pending⟩
      · by_cases same : id = source.id
        · subst same
          simp only [setStore, Function.update_self] at stored
          rcases checkpoint with old | fresh
          · exact Or.inl (old ▸ stored)
          · rw [fresh, Option.some.injEq] at stored
            exact Or.inr (stored ▸ ⟨rfl, atRoot⟩)
        · simp only [setStore, Function.update_of_ne same] at stored
          exact Or.inl stored
      · by_cases same : id = source.id
        · subst same
          simp only [setStore, Function.update_self] at inside
          rcases files entry inside with old | fresh
          · exact Or.inl old
          · exact Or.inr ⟨by rw [fresh], fresh.symm ▸ atRoot⟩
        · simp only [setStore, Function.update_of_ne same] at inside
          exact Or.inl inside
  | finishedLoop => exact rooted.unmoved copies ⟨rfl, rfl, rfl, rfl, rfl⟩ rfl rfl
  | @finishedRequest token source rest guards here =>
      exact rooted.moved [] here (by simp) copies (.of_same ⟨rfl, rfl, rfl, rfl, rfl⟩) rfl rfl

/-- No change of roots has been seen yet, and what is stored belongs to the roots of now. -/
structure Settled (σ : Server) : Prop extends Opened σ where
  unmoved : ∀ id, σ.rooted id = none
  checkpoint : ∀ id source, (σ.stores id).checkpoint = some source → source.id = id ∧ σ.AtRoot source
  files : ∀ id, ∀ entry ∈ (σ.stores id).files, entry.2.id = id

theorem Settled.rooted (settled : σ.Settled) : Rooted σ where
  copies source used := (settled.toFresh.not_inUse true source used).elim
  saved id saved stored := by
    rw [settled.unmoved] at stored
    cases stored
  checkpoint id source stored := (settled.checkpoint id source stored).imp_right Or.inr
  files id entry inside := by
    refine ⟨settled.files id entry inside, fun saved stored => ?_⟩
    rw [settled.unmoved] at stored
    cases stored

def pulledDocs : SyncRelationship := { docsRelationship none with direction := .pullOnly }

/-- An update of the local path, from the request to the loop that it starts. -/
def movedRoot : List Action :=
  .receive 1 (.inspect (text "docs") ⟨none, none, some (text "/work"), none, none, none, none⟩) ::
    List.replicate 10 (.advance 1 false 0)

def pulledAnew : List Action := [.begin 0, .record (.loop 0) (text "/docs/a"), .saveCheckpoint (.loop 0)]

theorem rootsAtRest_other {operation : Operation} {rest : List Operation}
    (here : σ.requests token = operation :: rest)
    (persist : ∀ id request existing wasRunning, operation ≠ .persist id request existing wasRunning) :
    σ.RootsAtRest (.advance token false moment) := by
  intro first later equal
  rw [here, List.cons.injEq] at equal
  rw [← equal.1]
  exact ⟨fun id request existing wasRunning _ same => absurd same (persist id request existing wasRunning),
    fun _ _ _ _ _ impossible => by cases impossible⟩

theorem settled_idleServer (relationships : Config) : (idleServer relationships).Settled where
  running := rfl
  loops _ := rfl
  lock := rfl
  requests _ := rfl
  starts := rfl
  history _ := rfl
  settled _ := Nat.le_refl _
  unmoved _ := rfl
  checkpoint _ _ stored := by cases stored
  files _ _ inside := by cases inside

/-- A sync that a request has begun ends after the reset and stores what it has computed for the old root. -/
def syncInFlight : List Action :=
  .receive 0 (.load (text "docs") false) :: List.replicate 4 (.advance 0 false 0)

def storedLate : List Action :=
  [.record (.request 0) (text "/docs/a"), .saveCheckpoint (.request 0), .finish (.request 0)]

end Server

end AeordbSync

import AeordbSync.Server.Copies

namespace AeordbSync
open Characters OsPath Server

variable {σ base after : Server} {token : Nat} {rest : List Operation} {fails : Bool} {moment : Int}
  {operation : Operation}

/-- The version that a request settles when it completes. -/
def Operation.due : Operation → Option (Text × Nat)
  | .settle id version => some (id, version)
  | .reset _ updated _ => some (updated.id, updated.version)
  | _ => none

/-- The operations that change the configuration or complete a change of it. -/
def Operation.saves : Operation → Bool
  | .persist .. | .setEnabled .. | .remove _ | .settle .. => true
  | _ => false

namespace Server

/-- The copy was current at some time, and the relationship was enabled then. -/
def Known (σ : Server) (source : Captured) : Prop :=
  source.version ≤ σ.versions source.id ∧
    σ.history source.id source.version = some source.relationship.settings ∧
    source.relationship.enabled = true

/-- The history tells every version, and nothing refers to a version that is still to come. -/
structure Booked (σ : Server) : Prop where
  history : ∀ id, σ.history id (σ.versions id) = settingsAt σ.config id
  settled : ∀ id, σ.settled id ≤ σ.versions id
  dues : ∀ token, ∀ operation ∈ σ.requests token, ∀ id version,
    operation.due = some (id, version) → version ≤ σ.versions id
  copies : ∀ source, σ.InUse false source → σ.Known source
  starts : ∀ start ∈ σ.starts, σ.Known start.source

theorem Booked.known (booked : Booked σ) {source : Captured} (current : σ.CurrentCopy source) :
    σ.Known source := by
  obtain ⟨present, enabled, version⟩ := current
  refine ⟨version.le, ?_, enabled⟩
  rw [version, booked.history, settingsAt, present, Option.map_some]

/-- What a step does to the books: no version is forgotten, and the dues are old or just recorded. -/
structure BookStep (σ after : Server) : Prop where
  versions : ∀ id, σ.versions id ≤ after.versions id
  past : ∀ id version, version ≤ σ.versions id → after.history id version = σ.history id version
  history : ∀ id, after.history id (after.versions id) = settingsAt after.config id
  settled : ∀ id, after.settled id ≤ after.versions id
  dues : ∀ token, ∀ operation ∈ after.requests token, ∀ id version, operation.due = some (id, version) →
    version ≤ after.versions id

theorem Known.advanced {source : Captured} (known : σ.Known source) (books : BookStep σ after) :
    after.Known source := by
  obtain ⟨version, settings, enabled⟩ := known
  exact ⟨version.trans (books.versions _), (books.past _ _ version).trans settings, enabled⟩

theorem Booked.advanced (booked : Booked σ) (books : BookStep σ after) (copies : CopiesStep σ after) :
    Booked after where
  history := books.history
  settled := books.settled
  dues := books.dues
  copies source used := by
    rcases copies.inUse used with old | current
    · exact (booked.copies source old).advanced books
    · exact (booked.known current).advanced books
  starts start among := by
    rcases copies.starts with same | ⟨kind, source, used, more⟩
    · exact (booked.starts start (same ▸ among)).advanced books
    · rw [more] at among
      rcases List.mem_cons.mp among with rfl | old
      · exact (booked.copies source used).advanced books
      · exact (booked.starts start old).advanced books

/-- The configuration, its history and what is settled are the same. -/
structure SameBooks (σ base : Server) : Prop where
  config : base.config = σ.config
  versions : base.versions = σ.versions
  history : base.history = σ.history
  settled : base.settled = σ.settled
  rooted : base.rooted = σ.rooted

theorem SameBooks.refl (σ : Server) : SameBooks σ σ := ⟨rfl, rfl, rfl, rfl, rfl⟩

/-- The due of an operation that comes next is none, that of the operation before or of a later one. -/
theorem BookStep.of_same (booked : Booked σ) (same : SameBooks σ after)
    (dues : ∀ token, ∀ operation ∈ after.requests token, operation.due ≠ none →
      ∃ token, ∃ other ∈ σ.requests token, other.due = operation.due) : BookStep σ after where
  versions id := by rw [same.versions]
  past id version _ := by rw [same.history]
  history id := by rw [same.history, same.versions, same.config, booked.history]
  settled id := by
    rw [same.settled, same.versions]
    exact booked.settled id
  dues token operation inside id version due := by
    obtain ⟨moved, other, among, equal⟩ := dues token operation inside (by simp [due])
    rw [same.versions]
    exact booked.dues moved other among id version (equal.trans due)

/-- The state after a save of the relationship under the version. -/
structure Recorded (σ base : Server) (id : Text) (version : Nat) : Prop where
  others : ∀ other, other ≠ id → base.config.get other = σ.config.get other
  versions : base.versions = Function.update σ.versions id version
  history : base.history = Function.update σ.history id
    (Function.update (σ.history id) version (settingsAt base.config id))
  settled : base.settled = σ.settled
  requests : base.requests = σ.requests
  loops : base.loops = σ.loops
  starts : base.starts = σ.starts
  change : version = σ.versions id + 1 ∨
    (version = σ.versions id ∧ settingsAt base.config id = settingsAt σ.config id)

theorem recorded_saved (σ : Server) (id : Text) (request : UpdateSyncRelationshipRequest) :
    Recorded σ (σ.saved id request) id (σ.versionAfter id request) where
  others other differs := by
    show (σ.config.update id request).get other = _
    rw [Config.get_update, if_neg differs]
  versions := rfl
  history := rfl
  settled := rfl
  requests := rfl
  loops := rfl
  starts := rfl
  change := by
    unfold versionAfter
    split
    next same => exact Or.inr ⟨rfl, same⟩
    · exact Or.inl rfl

theorem recorded_updatedBy (σ : Server) (id : Text) (request : UpdateSyncRelationshipRequest) :
    Recorded σ (σ.updatedBy id request) id (σ.versionAfter id request) := by
  have saved := recorded_saved σ id request
  unfold updatedBy
  split
  · exact ⟨saved.others, saved.versions, saved.history, saved.settled, saved.requests, saved.loops,
      saved.starts, saved.change⟩
  · exact saved

theorem recorded_removed (σ : Server) (id : Text) :
    Recorded σ (σ.removed id) id (σ.versions id + 1) where
  others other differs := by
    show (σ.config.delete id).get other = _
    rw [Config.get_delete, if_neg differs]
  versions := rfl
  history := rfl
  settled := rfl
  requests := rfl
  loops := rfl
  starts := rfl
  change := Or.inl rfl

theorem Recorded.grows {id : Text} {version : Nat} (recorded : Recorded σ base id version) :
    σ.versions id ≤ version := by
  rcases recorded.change with equal | ⟨equal, -⟩ <;> omega

theorem Recorded.versions_le {id : Text} {version : Nat} (recorded : Recorded σ base id version)
    (other : Text) : σ.versions other ≤ base.versions other := by
  rw [recorded.versions]
  by_cases same : other = id
  · subst same
    rw [Function.update_self]
    exact recorded.grows
  · rw [Function.update_of_ne same]

theorem Recorded.bookStep {id : Text} {version : Nat} (recorded : Recorded σ base id version)
    (booked : Booked σ) {operations : List Operation}
    (dues : ∀ operation ∈ operations, operation ∈ σ.requests token ∨
      ∀ due, operation.due = some due → due = (id, version)) :
    BookStep σ (base.next token operations) where
  versions := recorded.versions_le
  past other past before := by
    show base.history other past = _
    rw [recorded.history]
    by_cases same : other = id
    · subst same
      rw [Function.update_self]
      by_cases now : past = version
      · subst now
        have last : past = σ.versions other := before.antisymm recorded.grows
        have unchanged : settingsAt base.config other = settingsAt σ.config other := by
          rcases recorded.change with equal | ⟨-, equal⟩
          · omega
          · exact equal
        rw [Function.update_self, unchanged, ← booked.history, last]
      · rw [Function.update_of_ne now]
    · rw [Function.update_of_ne same]
  history other := by
    show base.history other (base.versions other) = settingsAt base.config other
    rw [recorded.history, recorded.versions]
    by_cases same : other = id
    · subst same
      rw [Function.update_self, Function.update_self, Function.update_self]
    · rw [Function.update_of_ne same, Function.update_of_ne same, booked.history, settingsAt, settingsAt,
        recorded.others other same]
  settled other := by
    show base.settled other ≤ base.versions other
    rw [recorded.settled]
    exact (booked.settled other).trans (recorded.versions_le other)
  dues moved operation inside other due equal := by
    have old : ∀ {moved : Nat}, operation ∈ σ.requests moved → due ≤ base.versions other := fun among =>
      (booked.dues _ operation among other due equal).trans (recorded.versions_le other)
    simp only [next, recorded.requests] at inside
    by_cases same : moved = token
    · subst same
      rw [Function.update_self] at inside
      rcases dues operation inside with among | fresh
      · exact old among
      · obtain ⟨rfl, rfl⟩ := Prod.mk.inj (fresh _ equal)
        show due ≤ base.versions other
        rw [recorded.versions, Function.update_self]
    · rw [Function.update_of_ne same] at inside
      exact old inside

/-- A request that goes on while the books stay as they are. -/
theorem BookStep.moved (base : Server) (new : List Operation) (booked : Booked σ) (same : SameBooks σ base)
    (requests : base.requests = σ.requests) (here : σ.requests token = operation :: rest)
    (dues : ∀ other ∈ new, other.due = none ∨ other.due = operation.due) :
    BookStep σ (base.next token (new ++ rest)) := by
  refine .of_same booked ⟨same.config, same.versions, same.history, same.settled, same.rooted⟩
    fun moved other inside owed => ?_
  simp only [next, requests] at inside
  rcases mem_after here inside with old | ⟨-, fresh⟩
  · exact ⟨moved, other, old, rfl⟩
  · rcases dues other fresh with none | mine
    · exact absurd none owed
    · exact ⟨token, operation, here ▸ List.mem_cons_self .., mine.symm⟩

theorem sameBooks_unlocked (σ : Server) (locked : Bool) : SameBooks σ (σ.unlocked locked) := by
  cases locked <;> exact ⟨rfl, rfl, rfl, rfl, rfl⟩

theorem requests_unlocked (σ : Server) (locked : Bool) : (σ.unlocked locked).requests = σ.requests := by
  cases locked <;> rfl

theorem due_inspected (id : Text) (request : UpdateSyncRelationshipRequest) (existing : SyncRelationship) :
    (inspected id request existing).due = none := by
  unfold inspected
  split <;> rfl

theorem due_afterReset (updated : Captured) : ∀ operation ∈ afterReset updated,
    operation.due = none ∨ operation.due = some (updated.id, updated.version) := by
  intro operation inside
  rcases List.mem_append.mp inside with start | settle
  · split at start
    · exact Or.inl (by rw [List.mem_singleton.mp start]; rfl)
    · cases start
  · exact Or.inr (by rw [List.mem_singleton.mp settle]; rfl)

/-- An operation that saves nothing keeps the books and brings no due of its own. -/
theorem operate_quiet (quiet : operation.saves = false)
    (taken : operate σ token rest fails moment operation = some after) :
    ∃ base new, after = base.next token (new ++ rest) ∧ SameBooks σ base ∧ base.requests = σ.requests ∧
      ∀ other ∈ new, other.due = none ∨ other.due = operation.due := by
  have same := SameBooks.refl σ
  cases operation with
  | inspect id request =>
      simp only [operate] at taken
      split at taken
      next existing _ =>
        cases taken
        refine ⟨_, [_], rfl, same, rfl, fun other inside => Or.inl ?_⟩
        rw [List.mem_singleton.mp inside]
        exact due_inspected id request existing
      · cases taken
        exact ⟨_, [], rfl, same, rfl, by simp⟩
  | reset existing updated writes =>
      simp only [operate] at taken
      split at taken
      · cases taken
        exact ⟨_, _, rfl, same, rfl, due_afterReset updated⟩
      · split at taken
        · cases taken
          exact ⟨_, [_], rfl, same, rfl, by simp [Operation.due]⟩
        · cases taken
          exact ⟨_, [_], rfl, ⟨rfl, rfl, rfl, rfl, rfl⟩, rfl, by simp [Operation.due]⟩
  | await handle locked =>
      simp only [operate] at taken
      split at taken
      · cases taken
        exact ⟨_, [], rfl, sameBooks_unlocked σ locked, requests_unlocked σ locked, by simp⟩
      · cases taken
  | drain =>
      simp only [operate] at taken
      split at taken
      · cases taken
      · cases taken
        refine ⟨{ σ with running := [] }, _, rfl, ⟨rfl, rfl, rfl, rfl, rfl⟩, rfl, fun other inside => Or.inl ?_⟩
        obtain ⟨entry, -, rfl⟩ := List.mem_map.mp inside
        rfl
  | startEnabled =>
      simp only [operate] at taken
      split at taken
      · cases taken
        exact ⟨_, [], rfl, same, rfl, by simp⟩
      · cases taken
        refine ⟨_, _, rfl, same, rfl, fun other inside => Or.inl ?_⟩
        obtain ⟨relationship, -, rfl⟩ := List.mem_map.mp inside
        rfl
  | syncing source => cases taken
  | persist id request existing wasRunning => cases quiet
  | setEnabled id enabled => cases quiet
  | remove id => cases quiet
  | settle id version => cases quiet
  | spawn source =>
      cases taken
      exact ⟨σ.spawned source, [], rfl, ⟨rfl, rfl, rfl, rfl, rfl⟩, rfl, by simp⟩
  | abort handle =>
      cases taken
      exact ⟨σ.aborted handle, [_], rfl, ⟨rfl, rfl, rfl, rfl, rfl⟩, rfl, by simp [Operation.due]⟩
  | call source =>
      cases taken
      exact ⟨σ.started .full source, [_], rfl, ⟨rfl, rfl, rfl, rfl, rfl⟩, rfl, by simp [Operation.due]⟩
  | probe | start | stop | load | tryGuard | prepare =>
      simp only [operate] at taken
      repeat' split at taken
      all_goals first
        | cases taken; exact ⟨_, [], rfl, ⟨rfl, rfl, rfl, rfl, rfl⟩, rfl, by simp⟩
        | cases taken; exact ⟨_, [_], rfl, ⟨rfl, rfl, rfl, rfl, rfl⟩, rfl, by simp [Operation.due]⟩
        | cases taken; exact ⟨_, [_, _], rfl, same, rfl, by simp [Operation.due]⟩
        | cases taken

/-- The relationship that the operation saves, and the version that it has then. -/
def saving (σ : Server) : Operation → Option (Text × Nat)
  | .persist id request _ _ => some (id, σ.versionAfter id request)
  | .setEnabled id enabled => some (id, σ.versionAfter id (enabledRequest enabled))
  | .remove id => some (id, σ.versions id + 1)
  | _ => none

theorem afterSave_due (σ : Server) (id : Text) (existing : SyncRelationship) (pathsChanged : Bool) :
    ∀ operation ∈ afterSave σ id existing pathsChanged, operation.manual true = none ∧ operation.plain = true ∧
      operation.due = some (id, σ.versions id) := by
  intro operation inside
  unfold afterSave at inside
  split at inside
  · cases inside
  next updated present =>
    split at inside
    · rw [List.mem_singleton.mp inside, ← Config.id_of_get present]
      exact ⟨rfl, rfl, rfl⟩
    · rw [List.mem_singleton.mp inside]
      exact ⟨rfl, rfl, rfl⟩

/-- A save that fails changes nothing; one that succeeds owes what it has recorded. -/
theorem operate_saving {id : Text} {version : Nat} (saving : σ.saving operation = some (id, version))
    (taken : operate σ token rest fails moment operation = some after) :
    (∃ new, after = σ.next token (new ++ rest) ∧ ∀ other ∈ new, other.due = none) ∨
    (fails = false ∧ σ.config.get id ≠ none ∧
      ∃ base new, after = base.next token (new ++ rest) ∧ Recorded σ base id version ∧
      ∀ other ∈ new, other.manual true = none ∧ other.plain = true ∧
        ∀ due, other.due = some due → due = (id, version)) := by
  cases operation with
  | persist id request existing wasRunning =>
      cases saving
      simp only [operate] at taken
      split at taken
      · cases taken
        refine Or.inl ⟨_, rfl, fun other inside => ?_⟩
        split at inside
        · rw [List.mem_singleton.mp inside]
          rfl
        · cases inside
      next works =>
        cases taken
        have recorded := recorded_updatedBy σ id request
        refine Or.inr ⟨by simpa using fun failed => works (Or.inl failed),
          fun unknown => works (Or.inr unknown), _, _, rfl, recorded,
          fun other inside => ?_⟩
        obtain ⟨bare, plain, owed⟩ := afterSave_due _ _ _ _ other inside
        refine ⟨bare, plain, fun due equal => ?_⟩
        rw [owed, Option.some.injEq, recorded.versions, Function.update_self] at equal
        exact equal.symm
  | setEnabled id enabled =>
      cases saving
      simp only [operate] at taken
      split at taken
      · cases taken
        exact Or.inl ⟨[], rfl, by simp⟩
      next works =>
        cases taken
        have recorded := recorded_saved σ id (enabledRequest enabled)
        refine Or.inr ⟨by simpa using fun failed => works (Or.inl failed),
          fun unknown => works (Or.inr unknown), _, [_, _], rfl, recorded,
          fun other inside => ?_⟩
        have version : (σ.saved id (enabledRequest enabled)).versions id =
            σ.versionAfter id (enabledRequest enabled) := by
          rw [recorded.versions, Function.update_self]
        simp only [List.mem_cons, List.not_mem_nil, or_false] at inside
        rcases inside with rfl | rfl
        · cases enabled <;> exact ⟨rfl, rfl, fun _ => by simp [Operation.due]⟩
        · exact ⟨rfl, rfl, by simp [Operation.due, version]⟩
  | remove id =>
      cases saving
      simp only [operate] at taken
      split at taken
      · cases taken
        exact Or.inl ⟨[], rfl, by simp⟩
      next works =>
        cases taken
        refine Or.inr ⟨by simpa using fun failed => works (Or.inl failed),
          fun unknown => works (Or.inr unknown), _, [_], rfl,
          recorded_removed σ id, fun other inside => ?_⟩
        rw [List.mem_singleton.mp inside]
        exact ⟨rfl, rfl, by simp [Operation.due]⟩
  | _ => cases saving

theorem operate_books (booked : Booked σ) (here : σ.requests token = operation :: rest)
    (taken : operate σ token rest fails moment operation = some after) : BookStep σ after := by
  by_cases quiet : operation.saves = false
  · obtain ⟨base, new, rfl, same, requests, dues⟩ := operate_quiet quiet taken
    exact .moved base new booked same requests here dues
  cases operation with
  | settle id version =>
      cases taken
      have mine : version ≤ σ.versions id :=
        booked.dues token _ (here ▸ List.mem_cons_self ..) id version rfl
      have moved := BookStep.moved σ [] booked (SameBooks.refl σ) rfl here (by simp)
      refine ⟨moved.versions, moved.past, moved.history, fun other => ?_, moved.dues⟩
      show Function.update σ.settled id (max (σ.settled id) version) other ≤ σ.versions other
      by_cases equal : other = id
      · subst equal
        rw [Function.update_self]
        exact max_le (booked.settled other) mine
      · rw [Function.update_of_ne equal]
        exact booked.settled other
  | persist | setEnabled | remove =>
      rcases operate_saving rfl taken with ⟨new, rfl, origin⟩ | ⟨-, -, base, new, rfl, recorded, dues⟩
      · exact .moved σ new booked (SameBooks.refl σ) rfl here fun other inside => Or.inl (origin other inside)
      · refine recorded.bookStep booked fun other inside => ?_
        rcases List.mem_append.mp inside with fresh | old
        · exact Or.inr (dues other fresh).2.2
        · exact Or.inl (here ▸ List.mem_cons_of_mem _ old)
  | _ => exact absurd rfl quiet

theorem due_of_isRequest (request : operation.isRequest = true) : operation.due = none := by
  cases operation <;> first | rfl | cases request

/-- A step that changes neither the books nor a request. -/
theorem BookStep.kept (booked : Booked σ) (same : SameBooks σ after) (requests : after.requests = σ.requests) :
    BookStep σ after :=
  .of_same booked same fun token operation inside _ => ⟨token, operation, requests ▸ inside, rfl⟩

end Server

theorem Stepped.books {action : Action} (booked : Booked σ) (stepped : Stepped σ action after) :
    BookStep σ after := by
  cases stepped with
  | @received token operation empty request =>
      refine .of_same booked ⟨rfl, rfl, rfl, rfl, rfl⟩ fun moved other inside owed => ?_
      by_cases equal : moved = token
      · subst equal
        simp only [next, Function.update_self, List.mem_singleton] at inside
        exact absurd (inside ▸ due_of_isRequest request) owed
      · simp only [next, Function.update_of_ne equal] at inside
        exact ⟨moved, other, inside, rfl⟩
  | operated here taken => exact operate_books booked here taken
  | @timedOut token handle locked rest here =>
      exact .moved _ [] booked (sameBooks_unlocked σ locked) (requests_unlocked σ locked) here (by simp)
  | queued => exact .kept booked ⟨rfl, rfl, rfl, rfl, rfl⟩ rfl
  | left => exact .kept booked ⟨rfl, rfl, rfl, rfl, rfl⟩ rfl
  | skipped => exact .kept booked (SameBooks.refl σ) rfl
  | begun => exact .kept booked ⟨rfl, rfl, rfl, rfl, rfl⟩ rfl
  | dropped => exact .kept booked ⟨rfl, rfl, rfl, rfl, rfl⟩ rfl
  | wrote => exact .kept booked ⟨rfl, rfl, rfl, rfl, rfl⟩ rfl
  | finishedLoop => exact .kept booked ⟨rfl, rfl, rfl, rfl, rfl⟩ rfl
  | @finishedRequest token source rest guards here =>
      exact .moved { σ with guards := guards } [] booked ⟨rfl, rfl, rfl, rfl, rfl⟩ rfl here (by simp)

/-- Every step keeps the books. -/
theorem Server.Booked.step {action : Action} (booked : Booked σ) (stepped : Stepped σ action after) :
    Booked after :=
  booked.advanced (stepped.books booked) stepped.copies

end AeordbSync

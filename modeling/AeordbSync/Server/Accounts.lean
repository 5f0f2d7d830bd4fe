import AeordbSync.Server.Model

namespace AeordbSync
open Characters OsPath

/-- The mutex of the runner map is held while a start spawns and while a stop waits. -/
def Operation.holdsLock : Operation → Bool
  | .spawn _ => true
  | .await _ locked => locked
  | _ => false

/-- An operation that neither holds the lock nor is about to abort a loop. -/
def Operation.plain : Operation → Bool
  | .spawn _ => false
  | .await _ locked => !locked
  | .abort _ => false
  | _ => true

/-- The copy with which a manual sync is to begin or, where those in flight count, goes on. -/
def Operation.manual (inFlight : Bool) : Operation → Option Captured
  | .tryGuard source _ => some source
  | .prepare source _ => some source
  | .call source => some source
  | .syncing source => if inFlight then some source else none
  | _ => none

namespace Server

variable {σ after : Server}

/-- The copy is what the configuration holds now, and the relationship is enabled. -/
def CurrentCopy (σ : Server) (source : Captured) : Prop :=
  σ.config.get source.id = some source.relationship ∧ source.relationship.enabled = true ∧
    source.version = σ.versions source.id

def Live (σ : Server) (handle : Nat) (id : Text) : Prop :=
  ∃ loop, σ.loops handle = some loop ∧ loop.id = id

/-- The map, the lock and the requests account for the loops. -/
structure Disciplined (σ : Server) : Prop where
  keys : (σ.running.map Prod.fst).Nodup
  fresh : ∀ handle id, σ.Live handle id → handle < σ.nextHandle
  mapped : ∀ entry ∈ σ.running, entry.2 < σ.nextHandle
  named : ∀ entry ∈ σ.running, ∀ id, σ.Live entry.2 id → id = entry.1
  holder : ∀ token, ∀ operation ∈ σ.requests token, operation.holdsLock = true → σ.lock = some token
  first : ∀ token, ∀ operation ∈ (σ.requests token).tail, operation.holdsLock = false
  spawning : ∀ token source, .spawn source ∈ σ.requests token → σ.isRunning source.id = false

/-- A plain operation gives way to plain operations, or a plain operation is received. -/
inductive PlainMove (before : Nat → List Operation) : (Nat → List Operation) → Prop
  | stay : PlainMove before before
  | advance {token : Nat} {operation : Operation} {rest : List Operation} (new : List Operation)
      (here : before token = operation :: rest) (plain : operation.plain = true)
      (fresh : ∀ other ∈ new, other.plain = true) :
      PlainMove before (Function.update before token (new ++ rest))
  | receive {token : Nat} {operation : Operation} (empty : before token = [])
      (plain : operation.plain = true) : PlainMove before (Function.update before token [operation])

theorem not_plain_of_holdsLock {operation : Operation} (holds : operation.holdsLock = true) :
    operation.plain ≠ true := by
  cases operation with
  | spawn => simp [Operation.plain]
  | await handle locked => simp [Operation.plain, show locked = true from holds]
  | _ => cases holds

/-- A request that moves plainly keeps every special operation, and it brings none. -/
theorem PlainMove.mem_iff {before next : Nat → List Operation} (move : PlainMove before next)
    {operation : Operation} (special : operation.plain ≠ true) (token : Nat) :
    operation ∈ next token ↔ operation ∈ before token := by
  cases move with
  | stay => rfl
  | @advance moved first rest new here plain fresh =>
      by_cases same : token = moved
      · subst same
        have notFirst : operation ≠ first := by
          rintro rfl
          exact special plain
        have notNew : operation ∉ new := fun inside => special (fresh operation inside)
        simp [here, notFirst, notNew]
      · rw [Function.update_of_ne same]
  | @receive moved first empty plain =>
      by_cases same : token = moved
      · subst same
        have notFirst : operation ≠ first := by
          rintro rfl
          exact special plain
        simp [empty, notFirst]
      · rw [Function.update_of_ne same]

theorem PlainMove.mem_tail {before next : Nat → List Operation} (move : PlainMove before next)
    {operation : Operation} (special : operation.plain ≠ true) {token : Nat}
    (inside : operation ∈ (next token).tail) : operation ∈ (before token).tail := by
  cases move with
  | stay => exact inside
  | @advance moved first rest new here plain fresh =>
      by_cases same : token = moved
      · subst same
        rw [Function.update_self] at inside
        rw [here]
        cases new with
        | nil => exact List.mem_of_mem_tail inside
        | cons other others =>
            rcases List.mem_append.mp inside with early | late
            · exact absurd (fresh operation (List.mem_cons_of_mem _ early)) special
            · exact late
      · rwa [Function.update_of_ne same] at inside
  | @receive moved first empty plain =>
      by_cases same : token = moved
      · subst same
        rw [Function.update_self] at inside
        cases inside
      · rwa [Function.update_of_ne same] at inside

/-- Steps that leave the map, the lock and the handles alone and move the requests plainly. -/
structure Undisturbed (σ after : Server) : Prop where
  running : after.running = σ.running
  nextHandle : after.nextHandle = σ.nextHandle
  lock : after.lock = σ.lock
  live : ∀ handle id, after.Live handle id → σ.Live handle id
  requests : PlainMove σ.requests after.requests

theorem Disciplined.undisturbed (disciplined : Disciplined σ) (calm : Undisturbed σ after) :
    Disciplined after where
  keys := calm.running ▸ disciplined.keys
  fresh handle id live := calm.nextHandle ▸ disciplined.fresh handle id (calm.live handle id live)
  mapped := calm.running ▸ calm.nextHandle ▸ disciplined.mapped
  named entry inside id live :=
    disciplined.named entry (calm.running ▸ inside) id (calm.live _ id live)
  holder := by
    intro token operation inside holds
    rw [calm.lock]
    exact disciplined.holder token operation
      ((calm.requests.mem_iff (not_plain_of_holdsLock holds) token).mp inside) holds
  first := by
    intro token operation inside
    by_contra holds
    have locks : operation.holdsLock = true := by simpa using holds
    have old := calm.requests.mem_tail (not_plain_of_holdsLock locks) inside
    exact holds (disciplined.first token operation old)
  spawning := by
    intro token source inside
    rw [isRunning, calm.running]
    exact disciplined.spawning token source
      ((calm.requests.mem_iff (not_plain_of_holdsLock rfl) token).mp inside)

/-- The parts of the state that account for the loops are the same. -/
structure SameRunner (σ base : Server) : Prop where
  running : base.running = σ.running
  nextHandle : base.nextHandle = σ.nextHandle
  lock : base.lock = σ.lock
  loops : base.loops = σ.loops
  requests : base.requests = σ.requests

theorem SameRunner.refl (σ : Server) : SameRunner σ σ := ⟨rfl, rfl, rfl, rfl, rfl⟩

theorem SameRunner.live {base : Server} (same : SameRunner σ base) {handle : Nat} {id : Text}
    (live : base.Live handle id) : σ.Live handle id := by
  unfold Live at live
  rwa [same.loops] at live

theorem SameRunner.moved {base : Server} (same : SameRunner σ base) {token : Nat} {operation : Operation}
    {rest : List Operation} (new : List Operation) (here : σ.requests token = operation :: rest)
    (plain : operation.plain = true) (fresh : ∀ other ∈ new, other.plain = true) :
    Undisturbed σ (base.next token (new ++ rest)) where
  running := same.running
  nextHandle := same.nextHandle
  lock := same.lock
  live _ _ live := same.live live
  requests := by
    have move := PlainMove.advance new here plain fresh
    rwa [← same.requests] at move ⊢

/-- A plain operation whose copy is that of the operation before it or is read now. -/
def Derived (σ : Server) (operation other : Operation) : Prop :=
  other.plain = true ∧ ∀ inFlight source, other.manual inFlight = some source →
    operation.manual inFlight = some source ∨ σ.CurrentCopy source

theorem derived_nil {operation : Operation} :
    ∀ other ∈ ([] : List Operation), σ.Derived operation other := by simp

theorem manual_true {operation : Operation} {inFlight : Bool} {source : Captured}
    (copy : operation.manual inFlight = some source) : operation.manual true = some source := by
  cases operation <;> cases inFlight <;> first | exact copy | cases copy

theorem derived_one {operation other : Operation} (plain : other.plain = true)
    (bare : other.manual true = none) : ∀ next ∈ [other], σ.Derived operation next := by
  intro next inside
  rw [List.mem_singleton.mp inside]
  refine ⟨plain, fun inFlight source copy => ?_⟩
  have impossible := manual_true copy
  rw [bare] at impossible
  cases impossible

theorem derived_carried {operation other : Operation} {source : Captured} (plain : other.plain = true)
    (mine : other.manual true = some source) (hers : ∀ inFlight, operation.manual inFlight = some source) :
    ∀ next ∈ [other], σ.Derived operation next := by
  intro next inside
  rw [List.mem_singleton.mp inside]
  refine ⟨plain, fun inFlight copy equal => Or.inl ?_⟩
  rw [hers, ← mine, manual_true equal]

theorem sameRunner_saved (σ : Server) (id : Text) (request : UpdateSyncRelationshipRequest) :
    SameRunner σ (σ.saved id request) := ⟨rfl, rfl, rfl, rfl, rfl⟩

theorem sameRunner_updatedBy (σ : Server) (id : Text) (request : UpdateSyncRelationshipRequest) :
    SameRunner σ (σ.updatedBy id request) := by
  unfold updatedBy
  split <;> exact ⟨rfl, rfl, rfl, rfl, rfl⟩

theorem sameRunner_removed (σ : Server) (id : Text) : SameRunner σ (σ.removed id) :=
  ⟨rfl, rfl, rfl, rfl, rfl⟩

theorem sameRunner_settledAt (σ : Server) (id : Text) (version : Nat) :
    SameRunner σ (σ.settledAt id version) := ⟨rfl, rfl, rfl, rfl, rfl⟩

theorem sameRunner_withGuard (σ : Server) (id : Text) (held : Bool) :
    SameRunner σ (σ.withGuard id held) := ⟨rfl, rfl, rfl, rfl, rfl⟩

theorem sameRunner_setStore (σ : Server) (id : Text) (store : SyncStore) :
    SameRunner σ (σ.setStore id store) := ⟨rfl, rfl, rfl, rfl, rfl⟩

theorem sameRunner_started (σ : Server) (kind : SyncKind) (source : Captured) :
    SameRunner σ (σ.started kind source) := ⟨rfl, rfl, rfl, rfl, rfl⟩

end Server

open Server

variable {σ after : Server} {token : Nat} {rest : List Operation} {fails : Bool} {moment : Int}

theorem inspected_derived (id : Text) (request : UpdateSyncRelationshipRequest)
    (existing : SyncRelationship) (operation : Operation) :
    ∀ other ∈ [inspected id request existing], σ.Derived operation other := by
  unfold inspected
  split <;> exact derived_one rfl rfl

theorem afterSave_derived (base : Server) (id : Text) (existing : SyncRelationship) (pathsChanged : Bool)
    (operation : Operation) :
    ∀ other ∈ afterSave base id existing pathsChanged, σ.Derived operation other := by
  unfold afterSave
  split
  · exact derived_nil
  · split <;> exact derived_one rfl rfl

theorem afterReset_derived (updated : Captured) (operation : Operation) :
    ∀ other ∈ afterReset updated, σ.Derived operation other := by
  intro other inside
  rcases List.mem_append.mp inside with start | settle
  · split at start
    · exact derived_one rfl rfl other start
    · cases start
  · exact derived_one rfl rfl other settle

/-- The operations that take or give up the lock or take loops out of the map. -/
def Operation.special : Operation → Bool
  | .start _ | .spawn _ | .stop _ | .abort _ | .await .. | .drain => true
  | _ => false

/-- Every other operation leaves the accounts of the loops alone and brings plain operations. -/
theorem operate_ordinary {operation : Operation} (ordinary : operation.special = false)
    (taken : operate σ token rest fails moment operation = some after) :
    ∃ base new, SameRunner σ base ∧ (∀ other ∈ new, σ.Derived operation other) ∧
      after = base.next token (new ++ rest) := by
  have same := SameRunner.refl σ
  cases operation with
  | inspect id request =>
      simp only [operate] at taken
      split at taken
      · cases taken
        exact ⟨_, [_], same, inspected_derived _ _ _ _, rfl⟩
      · cases taken
        exact ⟨_, [], same, derived_nil, rfl⟩
  | probe id request existing =>
      simp only [operate] at taken
      split at taken
      · cases taken
      · split at taken
        · cases taken
          exact ⟨_, [_, _], same, by simp [Derived, Operation.plain, Operation.manual], rfl⟩
        · cases taken
          exact ⟨_, [_], same, derived_one rfl rfl, rfl⟩
  | persist id request existing wasRunning =>
      simp only [operate] at taken
      split at taken
      · cases taken
        refine ⟨_, _, same, ?_, rfl⟩
        split
        · exact derived_one rfl rfl
        · exact derived_nil
      · cases taken
        exact ⟨_, _, sameRunner_updatedBy .., afterSave_derived _ _ _ _ _, rfl⟩
  | reset existing updated writes =>
      simp only [operate] at taken
      split at taken
      · cases taken
        exact ⟨_, _, same, afterReset_derived updated _, rfl⟩
      · split at taken
        · cases taken
          exact ⟨_, [_], same, derived_one rfl rfl, rfl⟩
        · cases taken
          exact ⟨_, [.reset existing updated _], sameRunner_setStore .., derived_one rfl rfl, rfl⟩
  | setEnabled id enabled =>
      simp only [operate] at taken
      split at taken
      · cases taken
        exact ⟨_, [], same, derived_nil, rfl⟩
      · cases taken
        refine ⟨_, [_, _], sameRunner_saved .., ?_, rfl⟩
        cases enabled <;> simp [Derived, Operation.plain, Operation.manual]
  | remove id =>
      simp only [operate] at taken
      split at taken
      · cases taken
        exact ⟨_, [], same, derived_nil, rfl⟩
      · cases taken
        exact ⟨_, [.settle id _], sameRunner_removed .., derived_one rfl rfl, rfl⟩
  | settle id version =>
      cases taken
      exact ⟨_, [], sameRunner_settledAt .., derived_nil, rfl⟩
  | startEnabled =>
      simp only [operate] at taken
      split at taken
      · cases taken
        exact ⟨_, [], same, derived_nil, rfl⟩
      · cases taken
        refine ⟨_, _, same, fun other inside => ?_, rfl⟩
        obtain ⟨relationship, -, rfl⟩ := List.mem_map.mp inside
        exact derived_one rfl rfl _ (List.mem_singleton_self _)
  | load id force =>
      simp only [operate] at taken
      split at taken
      next relationship present =>
        have known := Config.id_of_get present
        split at taken
        next enabled =>
          cases taken
          refine ⟨_, [_], same, fun other inside => ?_, rfl⟩
          rw [List.mem_singleton.mp inside]
          refine ⟨rfl, fun inFlight source copy => Or.inr ?_⟩
          cases copy
          exact ⟨known.symm ▸ present, enabled, by rw [Captured.id, known]⟩
        · cases taken
          exact ⟨_, [], same, derived_nil, rfl⟩
      · cases taken
        exact ⟨_, [], same, derived_nil, rfl⟩
  | tryGuard source force =>
      simp only [operate] at taken
      split at taken
      · cases taken
        exact ⟨_, [], same, derived_nil, rfl⟩
      · cases taken
        exact ⟨_, [.prepare source force], sameRunner_withGuard .., derived_carried rfl rfl fun _ => rfl, rfl⟩
  | prepare source force =>
      simp only [operate] at taken
      split at taken
      · cases taken
        exact ⟨_, [], sameRunner_withGuard .., derived_nil, rfl⟩
      · split at taken
        · cases taken
          exact ⟨_, [.call source], sameRunner_setStore .., derived_carried rfl rfl fun _ => rfl, rfl⟩
        · cases taken
          exact ⟨_, [_], same, derived_carried rfl rfl fun _ => rfl, rfl⟩
  | call source =>
      cases taken
      exact ⟨_, [.syncing source], sameRunner_started .., derived_carried rfl rfl fun _ => rfl, rfl⟩
  | syncing source => cases taken
  | start id => cases ordinary
  | spawn source => cases ordinary
  | stop id => cases ordinary
  | abort handle => cases ordinary
  | await handle locked => cases ordinary
  | drain => cases ordinary

theorem Operation.plain_of_ordinary {operation : Operation} (ordinary : operation.special = false) :
    operation.plain = true := by
  cases operation <;> first | rfl | cases ordinary

theorem operate_undisturbed {operation : Operation} (ordinary : operation.special = false)
    (here : σ.requests token = operation :: rest)
    (taken : operate σ token rest fails moment operation = some after) : Undisturbed σ after := by
  obtain ⟨base, new, same, fresh, rfl⟩ := operate_ordinary ordinary taken
  exact same.moved new here (Operation.plain_of_ordinary ordinary) fun other inside => (fresh other inside).1

end AeordbSync

import AeordbSync.Push.DeleteSafety
import AeordbSync.Server.Reset

namespace AeordbSync
open Characters OsPath Server

variable {ρ : Type} {σ base after : Server} {token : Nat} {rest : List Operation} {fails : Bool} {moment : Int}
  {operation : Operation} {id : Text} {version since : Nat}

namespace Server

/-- Every remote root that the relationship has had between the versions lies under the path. -/
def CoversEarlier (σ : Server) (id : Text) (since version : Nat) (path : Text) : Prop :=
  ∀ past < version, since ≤ past → ∀ earlier, σ.history id past = some earlier →
    isUnderRemoteBase (trimEndMatches '/' earlier.remotePath) path = true

/-- A change of the roots has left a marker that covers all earlier roots, or is about to leave one. -/
def Marked (σ : Server) (id : Text) (since : Nat) : Prop :=
  ∀ saved, σ.rooted id = some saved → saved.version ≤ σ.versions id ∧
    (σ.Pending id .storeMigration ∨ ∃ migration, (σ.stores id).migration = some migration ∧
      σ.CoversEarlier id since saved.version migration.oldRemotePath)

/-- No push of the relationship completes, the handler notices every change of the roots that it saves, the
relationship pushes, and each marker that is stored has an old root under which all earlier roots lie. -/
def Chained (id : Text) (since : Nat) (σ : Server) : Action → Prop
  | .advance token fails _ => ∀ operation rest, σ.requests token = operation :: rest →
      (∀ request existing wasRunning current, operation = .persist id request existing wasRunning →
        fails = false → σ.config.get id = some current → current.pathsChanged request = true →
          existing.pathsChanged request = true ∧ (current.updated request).direction.canPush = true) ∧
      ∀ existing updated write later, operation = .reset existing updated (write :: later) → updated.id = id →
        if fails = true then .storeMigration ∉ write :: later
        else write ≠ .clearMigration ∧ (write = .storeMigration →
          ∀ saved, σ.rooted id = some saved → σ.CoversEarlier id since saved.version existing.remotePath)
  | .finishMigration worker => ∀ kind source, σ.inSync worker = some (kind, source) → source.id ≠ id
  | _ => True

theorem CoversEarlier.kept {path : Text} (covers : σ.CoversEarlier id since version path) (books : BookStep σ after)
    (past : version ≤ σ.versions id) : after.CoversEarlier id since version path := by
  intro earlier before recent relationship stored
  rw [books.past id earlier (by omega)] at stored
  exact covers earlier before recent relationship stored

/-- A step that leaves the roots and the marker of the relationship alone and gives up no reset. -/
theorem Marked.kept (marked : σ.Marked id since) (books : BookStep σ after)
    (rooted : after.rooted id = σ.rooted id) (migration : (after.stores id).migration = (σ.stores id).migration)
    (pending : σ.Pending id .storeMigration → after.Pending id .storeMigration) : after.Marked id since := by
  intro saved stored
  obtain ⟨recent, left⟩ := marked saved (rooted ▸ stored)
  refine ⟨recent.trans (books.versions id), left.imp pending ?_⟩
  rintro ⟨marker, found, covers⟩
  exact ⟨marker, migration.trans found, covers.kept books recent⟩

/-- A request goes on with an operation that has no part in a reset. -/
theorem Marked.moved (marked : σ.Marked id since) (new : List Operation)
    (here : σ.requests token = operation :: rest)
    (reset : ∀ existing updated writes, operation ≠ .reset existing updated writes)
    (books : BookStep σ (base.next token (new ++ rest))) (requests : base.requests = σ.requests)
    (rooted : base.rooted id = σ.rooted id)
    (migration : (base.stores id).migration = (σ.stores id).migration) :
    (base.next token (new ++ rest)).Marked id since := by
  have requests : (base.next token (new ++ rest)).requests = Function.update σ.requests token (new ++ rest) := by
    rw [Server.next, requests]
  exact marked.kept books rooted migration (pending_moved here requests reset id .storeMigration)

theorem Marked.unmoved (marked : σ.Marked id since) (books : BookStep σ after) (rooted : after.rooted = σ.rooted)
    (stores : after.stores = σ.stores) (requests : after.requests = σ.requests) : after.Marked id since :=
  marked.kept books (by rw [rooted]) (by rw [stores]) (pending_of_requests requests id .storeMigration)

/-- A save that changes the roots orders a marker to be stored. -/
theorem Marked.rerooted {request : UpdateSyncRelationshipRequest} {existing current : SyncRelationship}
    (present : σ.config.get id = some current) (moves : current.pathsChanged request = true)
    (pushes : (current.updated request).direction.canPush = true) :
    ((σ.updatedBy id request).next token
      (afterSave (σ.updatedBy id request) id existing true ++ rest)).Marked id since := by
  have rewritten : σ.updatedBy id request = (σ.saved id request).rootedAt id := by
    unfold updatedBy
    rw [present, Option.any_some, if_pos moves]
  have known : (σ.updatedBy id request).config.get id = some (current.updated request) := by
    rw [rewritten]
    show (σ.config.update id request).get id = _
    rw [Config.get_update, if_pos rfl, present, Option.map_some]
  have named : (current.updated request).id = id := Config.id_of_get known
  have stored : (σ.updatedBy id request).rooted id =
      some ⟨current.updated request, (σ.updatedBy id request).versions id⟩ := by
    rw [rewritten] at known ⊢
    show Function.update σ.rooted id (((σ.saved id request).config.get id).map _) id = _
    rw [Function.update_self, show (σ.saved id request).config.get id = _ from known]
    rfl
  intro saved equal
  rw [show ((σ.updatedBy id request).next token _).rooted id = (σ.updatedBy id request).rooted id from rfl,
    stored, Option.some.injEq] at equal
  subst equal
  refine ⟨Nat.le_refl _, Or.inl ⟨token, existing,
    ⟨current.updated request, (σ.updatedBy id request).versions id⟩, resetWrites (current.updated request),
    ?_, named, ?_⟩⟩
  · unfold afterSave
    simp [Server.next, known]
  · unfold resetWrites
    rw [if_pos pushes]
    simp

theorem Marked.persisting (marked : σ.Marked id since) (booked : Booked σ) {target : Text}
    {request : UpdateSyncRelationshipRequest} {existing : SyncRelationship} {wasRunning : Bool}
    (here : σ.requests token = .persist target request existing wasRunning :: rest)
    (noticed : ∀ current, target = id → fails = false → σ.config.get id = some current →
      current.pathsChanged request = true →
        existing.pathsChanged request = true ∧ (current.updated request).direction.canPush = true)
    (taken : operate σ token rest fails moment (.persist target request existing wasRunning) = some after) :
    after.Marked id since := by
  have books := operate_books booked here taken
  have noReset : ∀ other updated writes,
      Operation.persist target request existing wasRunning ≠ .reset other updated writes := by simp
  simp only [operate] at taken
  split at taken
  · cases taken
    exact marked.moved _ here noReset books rfl rfl rfl
  next works =>
    cases taken
    obtain ⟨current, present⟩ := Option.ne_none_iff_exists'.mp fun unknown => works (Or.inr unknown)
    have kept : (σ.updatedBy target request).rooted id = σ.rooted id →
        ((σ.updatedBy target request).next token (afterSave (σ.updatedBy target request) target existing
          (existing.pathsChanged request) ++ rest)).Marked id since := fun rooted =>
      marked.moved _ here noReset books (recorded_updatedBy σ target request).requests rooted
        (by rw [updatedBy_stores])
    cases moves : current.pathsChanged request with
    | false =>
        refine kept ?_
        unfold updatedBy
        rw [present, Option.any_some, if_neg (by simp [moves])]
        rfl
    | true =>
        by_cases mine : target = id
        · subst mine
          have succeeds : fails = false := by simpa using fun failed => works (Or.inl failed)
          obtain ⟨seen, pushes⟩ := noticed current rfl succeeds present moves
          rw [seen]
          exact .rerooted present moves pushes
        · refine kept ?_
          unfold updatedBy
          rw [present, Option.any_some, if_pos moves]
          exact Function.update_of_ne (Ne.symm mine) _ _

theorem SyncStore.migration_afterWrite (store : SyncStore) (existing updated : SyncRelationship) (moment : Int)
    {write : ResetWrite} (stores : write ≠ .storeMigration) (clears : write ≠ .clearMigration) :
    (store.afterWrite existing updated moment write).migration = store.migration := by
  cases write with
  | storeMigration => exact absurd rfl stores
  | clearMigration => exact absurd rfl clears
  | clearCheckpoint => rfl
  | clearFiles => rfl

/-- The marker that a reset stores covers what the pending markers before it would have covered. -/
theorem Marked.resetting (marked : σ.Marked id since) (booked : Booked σ) {existing : SyncRelationship}
    {updated : Captured} {writes : List ResetWrite}
    (here : σ.requests token = .reset existing updated writes :: rest)
    (chained : ∀ write later, writes = write :: later → updated.id = id →
      if fails = true then .storeMigration ∉ write :: later
      else write ≠ .clearMigration ∧ (write = .storeMigration →
        ∀ saved, σ.rooted id = some saved → σ.CoversEarlier id since saved.version existing.remotePath))
    (taken : operate σ token rest fails moment (.reset existing updated writes) = some after) :
    after.Marked id since := by
  have books := operate_books booked here taken
  simp only [operate] at taken
  split at taken
  · cases taken
    refine marked.kept books rfl rfl fun pending => (pending_or_first here rfl pending).resolve_right ?_
    rintro ⟨_, _, _, equal, -, among⟩
    cases equal
    cases among
  next write later =>
    split at taken
    next failed =>
      cases taken
      have requests : (σ.next token (.settle updated.id updated.version :: rest)).requests =
          Function.update σ.requests token ([.settle updated.id updated.version] ++ rest) := rfl
      refine marked.kept books rfl rfl fun pending => (pending_or_first here requests pending).resolve_right ?_
      rintro ⟨_, _, _, equal, mine, among⟩
      cases equal
      have condition := chained write later rfl mine
      rw [if_pos failed] at condition
      exact condition among
    next works =>
      cases taken
      have requests : ((σ.setStore updated.id ((σ.stores updated.id).afterWrite existing updated.relationship
          moment write)).next token (.reset existing updated later :: rest)).requests =
          Function.update σ.requests token ([.reset existing updated later] ++ rest) := rfl
      by_cases mine : updated.id = id
      · have condition := chained write later rfl mine
        rw [if_neg works] at condition
        obtain ⟨keeps, covers⟩ := condition
        by_cases stores : write = .storeMigration
        · subst stores
          intro saved stored
          refine ⟨(marked saved stored).1, Or.inr ⟨migrationOf existing updated.relationship moment, ?_,
            covers rfl saved stored⟩⟩
          simp only [Server.next, setStore, mine, Function.update_self]
          rfl
        · refine marked.kept books rfl ?_ fun pending => ?_
          · simp only [Server.next, setStore, mine, Function.update_self]
            exact SyncStore.migration_afterWrite _ _ _ _ stores keeps
          · rcases pending_or_first here requests pending with still | ⟨_, _, _, equal, same, among⟩
            · exact still
            · cases equal
              have further : .storeMigration ∈ later := (List.mem_cons.mp among).resolve_left (Ne.symm stores)
              exact ⟨token, existing, updated, later, by simp [Server.next], same, further⟩
      · refine marked.kept books rfl ?_ fun pending => (pending_or_first here requests pending).resolve_right ?_
        · simp only [Server.next, setStore, Function.update_of_ne (Ne.symm mine)]
        · rintro ⟨_, _, _, equal, same, -⟩
          cases equal
          exact mine same

theorem Marked.operate (marked : σ.Marked id since) (booked : Booked σ)
    (here : σ.requests token = operation :: rest)
    (chained : σ.Chained id since (.advance token fails moment))
    (taken : AeordbSync.operate σ token rest fails moment operation = some after) : after.Marked id since := by
  have books := operate_books booked here taken
  obtain ⟨persists, resets⟩ := chained operation rest here
  cases operation with
  | reset existing updated writes =>
      exact marked.resetting booked here (fun write later equal mine =>
        resets existing updated write later (equal ▸ rfl) mine) taken
  | persist target request existing wasRunning =>
      exact marked.persisting booked here (fun current mine =>
        persists request existing wasRunning current (mine ▸ rfl)) taken
  | prepare source force =>
      simp only [AeordbSync.operate] at taken
      split at taken
      · cases taken
        exact marked.moved [] here (by simp) books rfl rfl rfl
      · split at taken
        · cases taken
          refine marked.moved [_] here (by simp) books rfl rfl ?_
          by_cases mine : id = source.id
          · subst mine
            simp [setStore]
          · simp [setStore, Function.update_of_ne mine]
        · cases taken
          exact marked.moved [_] here (by simp) books rfl rfl rfl
  | setEnabled target enabled =>
      simp only [AeordbSync.operate] at taken
      split at taken
      · cases taken
        exact marked.moved [] here (by simp) books rfl rfl rfl
      · cases taken
        exact marked.moved [_, _] here (by simp) books rfl rfl rfl
  | remove target =>
      simp only [AeordbSync.operate] at taken
      split at taken
      · cases taken
        exact marked.moved [] here (by simp) books rfl rfl rfl
      · cases taken
        exact marked.moved [_] here (by simp) books rfl rfl rfl
  | settle target version =>
      cases taken
      exact marked.moved [] here (by simp) books rfl rfl rfl
  | _ =>
      have stores := operate_stores (by simp) (by simp) taken
      obtain ⟨base, new, rfl, same, requests, -⟩ := operate_quiet rfl taken
      have stores : base.stores = σ.stores := stores
      exact marked.moved new here (by simp) books requests (by rw [same.rooted]) (by rw [stores])

theorem Marked.step {action : Action} (marked : σ.Marked id since) (booked : Booked σ)
    (chained : σ.Chained id since action) (stepped : Stepped σ action after) : after.Marked id since := by
  have books := stepped.books booked
  cases stepped with
  | @received token operation empty request =>
      refine marked.kept books rfl rfl ?_
      rintro ⟨moved, existing, updated, writes, inside, mine, among⟩
      have away : moved ≠ token := by
        rintro rfl
        rw [empty] at inside
        cases inside
      exact ⟨moved, existing, updated, writes, by simpa [Server.next, away] using inside, mine, among⟩
  | operated here taken => exact marked.operate booked here chained taken
  | @timedOut token handle locked rest here =>
      exact marked.moved [] here (by simp) books (requests_unlocked σ locked)
        (by rw [(sameBooks_unlocked σ locked).rooted]) (by rw [unlocked_stores])
  | queued => exact marked.unmoved books rfl rfl rfl
  | left => exact marked.unmoved books rfl rfl rfl
  | skipped => exact marked
  | begun => exact marked.unmoved books rfl rfl rfl
  | dropped => exact marked.unmoved books rfl rfl rfl
  | @wrote action worker kind source store inSync checkpoint files migration =>
      refine marked.kept books rfl ?_ fun pending => pending
      by_cases mine : id = source.id
      · subst mine
        rcases migration with same | rfl
        · simpa [setStore] using same
        · exact absurd rfl (chained kind source inSync)
      · simp only [setStore, Function.update_of_ne mine]
  | finishedLoop => exact marked.unmoved books rfl rfl rfl
  | @finishedRequest token source rest guards here =>
      exact marked.moved [] here (by simp) books rfl rfl rfl

end Server

theorem isUnderRemoteBase_trans {path middle root : Text} (low : isUnderRemoteBase path middle = true)
    (high : isUnderRemoteBase (trimEndMatches '/' middle) root = true) : isUnderRemoteBase path root = true := by
  rw [isUnderRemoteBase_iff] at low high ⊢
  exact high.trans low

namespace Server

def rerootedAt (token : Nat) (path : String) : List Action :=
  .receive token (.inspect (text "docs") ⟨none, some (text path), none, none, none, none, none⟩) ::
    List.replicate 3 (.advance token false 0)

/-- An update of the remote root of an idle relationship, to the loop that it starts. -/
def rootChanged : List Action := rerootedAt 1 "/b" ++ List.replicate 6 (.advance 1 false 0)

/-- A second update stops that loop first. -/
def rootChangedAgain : List Action :=
  rerootedAt 2 "/c" ++ [.drop 0] ++ List.replicate 8 (.advance 2 false 0)

/-- A push under the root with one record whose file is not in the local tree. -/
def movedDocs (path : String) : SyncRelationship := { docsRelationship none with remotePath := text path }

def recordedOnly (migration : SyncPathMigration) : World Shelf :=
  { startWorld (homeTree []) [syncedRecord "/docs/x" [65] 5] (Shelf.holding [("/docs/x", .file [65])]) with
    store := ⟨Records.empty.setAll [syncedRecord "/docs/x" [65] 5], none, some migration⟩ }

theorem chained_other {operation : Operation} {rest : List Operation} (here : σ.requests token = operation :: rest)
    (persist : ∀ target request existing wasRunning, operation ≠ .persist target request existing wasRunning)
    (reset : ∀ existing updated writes, operation ≠ .reset existing updated writes) :
    σ.Chained id since (.advance token fails moment) := by
  intro first later equal
  rw [here, List.cons.injEq] at equal
  rw [← equal.1]
  exact ⟨fun request existing wasRunning _ same => absurd same (persist id request existing wasRunning),
    fun existing updated write later same => absurd same (reset existing updated (write :: later))⟩

def docsMarker (oldPath newPath : String) : SyncPathMigration :=
  ⟨text "docs", text oldPath, text newPath, text "/home", text "/home", 0⟩

end Server

end AeordbSync

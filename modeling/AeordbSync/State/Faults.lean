import AeordbSync.State.Removing

namespace AeordbSync
open Characters Effect StateStore

/-- How the next calls of the database turn out. -/
abbrev Faults := List (Option Text)

namespace Faults

/-- What is left after a number of calls, each of which has to succeed. -/
def calls : Nat → Faults → Option Faults
  | 0, faults => some faults
  | _ + 1, some _ :: _ => none
  | n + 1, faults => calls n faults.tail

/-- A document is deleted once it is found. -/
def deletion (stored : Bool) (faults : Faults) : Option Faults :=
  (calls 1 faults).bind fun later => if stored then calls 1 later else some later

/-- A directory that cannot be listed counts as empty. -/
def emptying (entries : Nat) : Faults → Option Faults
  | some _ :: later => some later
  | faults => calls entries faults.tail

def clearing (present : Bool) (entries : Nat) (faults : Faults) : Option Faults :=
  (calls 1 faults).bind fun later => if present then emptying entries later else some later

end Faults

variable {σ α β : Type} {engine : StateEngine σ} {s : StateStore σ} {db middle after : σ}

/-- A call answers as said and leaves the faults that remain, or one of its calls meets a fault. -/
def Follows (x : Call σ α) (s : StateStore σ) (rest : Option Faults) (answer : α) (kept : σ → Prop) : Prop :=
  match rest with
  | none => ∃ error, (x s).1 = .error error
  | some later => ∃ db, x s = (.ok answer, ⟨db, later⟩) ∧ kept db

/-- Only documents of some places are gone, and directories that hold none of them are as before. -/
structure Erased (engine : StateEngine σ) (places : Slot → Prop) (db after : σ) : Prop where
  documents : ∀ slot, ¬ places slot → documents engine after slot = documents engine db slot
  present : ∀ directory, directory.getLast? = some '/' → (∀ slot, places slot → ¬ directory <+: slot.path) →
    engine.present after directory = engine.present db directory
  listing : ∀ directory, directory.getLast? = some '/' → (∀ slot, places slot → ¬ directory <+: slot.path) →
    engine.listing after directory = engine.listing db directory

namespace Erased

variable {places others : Slot → Prop}

theorem refl (engine : StateEngine σ) (places : Slot → Prop) (db : σ) : Erased engine places db db :=
  ⟨fun _ _ => rfl, fun _ _ _ => rfl, fun _ _ _ => rfl⟩

theorem trans (first : Erased engine places db middle) (second : Erased engine places middle after) :
    Erased engine places db after := by
  constructor
  · intro slot outside
    rw [second.documents slot outside, first.documents slot outside]
  · intro directory ends outside
    rw [second.present directory ends outside, first.present directory ends outside]
  · intro directory ends outside
    rw [second.listing directory ends outside, first.listing directory ends outside]

theorem mono (erased : Erased engine places db after) (more : ∀ slot, places slot → others slot) :
    Erased engine others db after := by
  constructor
  · intro slot outside
    exact erased.documents slot fun inside => outside (more slot inside)
  · intro directory ends outside
    exact erased.present directory ends fun slot inside => outside slot (more slot inside)
  · intro directory ends outside
    exact erased.listing directory ends fun slot inside => outside slot (more slot inside)

theorem erase (engine : StateEngine σ) (db : σ) (slot : Slot) :
    Erased engine (· = slot) db (engine.erase slot.path db) := by
  constructor
  · intro other outside
    rw [engine.documents_erase, Function.update_of_ne outside]
  · intro directory ends outside
    exact engine.present_erase db _ directory ends (outside slot rfl)
  · intro directory ends outside
    exact engine.listing_erase db _ directory ends (outside slot rfl)

end Erased

namespace Follows

theorem ret (answer : α) {kept : σ → Prop} (holds : kept s.db) :
    Follows (pure answer : Call σ α) s (some s.faults) answer kept := ⟨s.db, rfl, holds⟩

theorem call (failure : Text → ClientError) {run : σ → α × σ} {kept : σ → Prop} {answer : α}
    (same : (run s.db).1 = answer) (holds : kept (run s.db).2) :
    Follows (StateStore.call failure run) s (Faults.calls 1 s.faults) answer kept := by
  obtain ⟨db, faults⟩ := s
  subst same
  cases faults with
  | nil => exact ⟨_, rfl, holds⟩
  | cons fault later =>
      cases fault with
      | none => exact ⟨_, rfl, holds⟩
      | some error => exact ⟨failure error, rfl⟩

theorem bind {x : Call σ α} {f : α → Call σ β} {rest : Option Faults} {answer : α} {value : β}
    {kept held : σ → Prop} {next : Faults → Option Faults} (first : Follows x s rest answer kept)
    (second : ∀ db later, kept db → Follows (f answer) ⟨db, later⟩ (next later) value held) :
    Follows (x >>= f) s (rest.bind next) value held := by
  cases rest with
  | none =>
      obtain ⟨error, failed⟩ := first
      refine ⟨error, ?_⟩
      rw [Proc.bind_apply]
      rcases reached : x s with ⟨result, after⟩
      rw [reached] at failed
      cases failed
      rfl
  | some later =>
      obtain ⟨db, ran, holds⟩ := first
      have step := second db later holds
      show Follows (x >>= f) s (next later) value held
      cases remaining : next later with
      | none =>
          rw [remaining] at step
          obtain ⟨error, failed⟩ := step
          refine ⟨error, ?_⟩
          rw [Proc.bind_apply, ran]
          exact failed
      | some last =>
          rw [remaining] at step
          obtain ⟨after, answered, done⟩ := step
          refine ⟨after, ?_, done⟩
          rw [Proc.bind_apply, ran]
          exact answered

theorem mono {x : Call σ α} {rest : Option Faults} {answer : α} {kept held : σ → Prop}
    (follows : Follows x s rest answer kept) (weaker : ∀ db, kept db → held db) :
    Follows x s rest answer held := by
  cases rest with
  | none => exact follows
  | some later =>
      obtain ⟨db, ran, holds⟩ := follows
      exact ⟨db, ran, weaker db holds⟩

end Follows

namespace SyncMetadataStore

theorem deleteIfPresent_follows {slot : Slot} (document : IsDocument slot.path) (s : StateStore σ) :
    Follows (deleteIfPresent engine slot.path) s
      (Faults.deletion (documents engine s.db slot).isSome s.faults) () (Erased engine (· = slot) s.db) := by
  apply Follows.bind (Follows.call _ rfl rfl : Follows _ s _ _ (· = s.db))
  rintro db later rfl
  rw [engine.present_slot _ document]
  cases (documents engine s.db slot).isSome with
  | false => exact Follows.ret () (Erased.refl engine _ _)
  | true =>
      have erased := Erased.erase engine s.db slot
      show Follows (delete engine slot.path) ⟨s.db, later⟩ (Faults.calls 1 later) () _
      exact Follows.call _ rfl erased

theorem deleteEach_follows (engine : StateEngine σ) {directory : Text} {slot : Text → Slot} (place : Place directory slot)
    (names : List Text) (s : StateStore σ) :
    Follows (Proc.forEach names fun entry => delete engine (directory ++ entry)) s
      (Faults.calls names.length s.faults) () (Erased engine (fun other => ∃ name, other = slot name) s.db) := by
  induction names generalizing s with
  | nil => exact Follows.ret () (Erased.refl engine _ _)
  | cons name rest ih =>
      have split : Faults.calls (name :: rest).length s.faults = (Faults.calls 1 s.faults).bind (Faults.calls rest.length) := by
        cases s.faults with
        | nil => rfl
        | cons fault later =>
            cases fault with
            | none => rfl
            | some error => rfl
      rw [split]
      have erased : Erased engine (fun other => ∃ name, other = slot name) s.db
          (engine.erase (directory ++ name) s.db) := by
        rw [← place.named]
        exact (Erased.erase engine s.db (slot name)).mono fun other same => ⟨name, same⟩
      apply Follows.bind (Follows.call _ rfl erased)
      intro db later front
      exact (ih ⟨db, later⟩).mono fun after back => front.trans back

/-- The number of documents of a directory that are deleted with it. -/
def entries (engine : StateEngine σ) (db : σ) (directory : Text) : Nat :=
  ((engine.listing db directory).filter (· ≠ text ".keep")).length

theorem clearDirectory_follows {directory : Text} {slot : Text → Slot} (place : Place directory slot)
    (s : StateStore σ) :
    Follows (clearDirectory engine directory) s
      (Faults.clearing (engine.present s.db directory) (entries engine s.db directory) s.faults) ()
      (Erased engine (fun other => ∃ name, other = slot name) s.db) := by
  apply Follows.bind (Follows.call _ rfl rfl : Follows _ s _ _ (· = s.db))
  rintro db later rfl
  cases engine.present s.db directory with
  | false => exact Follows.ret () (Erased.refl engine _ _)
  | true =>
      have each := deleteEach_follows engine place
        ((engine.listing s.db directory).filter (· ≠ text ".keep")) ⟨s.db, later.tail⟩
      cases later with
      | nil => exact each
      | cons fault rest =>
          cases fault with
          | none => exact each
          | some error => exact ⟨s.db, rfl, Erased.refl engine _ _⟩

variable (engine)

/-- The faults that are left once a path migration has begun. -/
def beginPathMigrationFaults (db : σ) (id : RelationshipId) (faults : Faults) : Option Faults :=
  (Faults.deletion (documents engine db (.checkpoint id)).isSome faults).bind (Faults.calls 1)

/-- The faults that are left once the state of a relationship is cleared. -/
def clearRelationshipStateFaults (db : σ) (id : RelationshipId) (faults : Faults) : Option Faults := do
  let faults ← Faults.deletion (documents engine db (.checkpoint id)).isSome faults
  let faults ← Faults.deletion (documents engine db (.migration id)).isSome faults
  let faults ← Faults.clearing (engine.present db (syncFilesDir id)) (entries engine db (syncFilesDir id)) faults
  let faults ← Faults.deletion (documents engine db (.index id)).isSome faults
  Faults.clearing (engine.present db (fileMetaV2RelationshipDir id))
    (entries engine db (fileMetaV2RelationshipDir id)) faults

theorem beginPathMigration_follows (id : RelationshipId) (migration : SyncPathMigration) (s : StateStore σ) :
    Follows (beginPathMigration engine id migration) s (beginPathMigrationFaults engine s.db id s.faults) ()
      fun _ => True := by
  apply Follows.bind (deleteIfPresent_follows (Slot.isDocument_checkpoint id) s)
  intro db later _
  exact .call _ rfl trivial

/-- The places that are emptied before the buckets. -/
def Early (id : RelationshipId) (slot : Slot) : Prop :=
  slot = .checkpoint id ∨ slot = .migration id ∨ slot = .index id ∨ ∃ name, slot = .legacy id name

theorem early_outside {id : RelationshipId} {slot : Slot} (early : Early id slot) :
    ¬ fileMetaV2RelationshipDir id <+: slot.path := by
  intro inside
  rcases early with rfl | rfl | rfl | ⟨name, rfl⟩ <;>
    simp [fileMetaV2RelationshipDir, syncFilesDir, Slot.path, text] at inside

theorem single_outside {id : RelationshipId} {slot : Slot} (single : slot = .checkpoint id ∨ slot = .migration id) :
    ¬ syncFilesDir id <+: slot.path := by
  intro inside
  rcases single with rfl | rfl <;> simp [syncFilesDir, Slot.path, text] at inside

theorem clearRelationshipState_follows (id : RelationshipId) (s : StateStore σ) :
    Follows (clearRelationshipState engine id) s (clearRelationshipStateFaults engine s.db id s.faults) ()
      fun _ => True := by
  apply Follows.bind (deleteIfPresent_follows (Slot.isDocument_checkpoint id) s)
  intro first faults one
  rw [← one.documents (.migration id) (by simp)]
  apply Follows.bind (deleteIfPresent_follows (Slot.isDocument_migration id) ⟨first, faults⟩)
  intro second faults two
  have single : Erased engine (fun slot => slot = .checkpoint id ∨ slot = .migration id) s.db second :=
    (one.mono fun _ => Or.inl).trans (two.mono fun _ => Or.inr)
  rw [← single.present _ (syncFilesDir_last id) (fun _ => single_outside), entries,
    ← single.listing _ (syncFilesDir_last id) (fun _ => single_outside)]
  apply Follows.bind (clearDirectory_follows (place_syncFilesDir id) ⟨second, faults⟩)
  intro third faults three
  rw [← single.documents (.index id) (by simp), ← three.documents (.index id) (by simp)]
  apply Follows.bind (deleteIfPresent_follows (Slot.isDocument_index id) ⟨third, faults⟩)
  intro fourth faults four
  have early : Erased engine (Early id) s.db fourth := by
    apply Erased.trans (single.mono _)
    · apply Erased.trans (three.mono _) (four.mono _)
      · exact fun slot named => Or.inr (Or.inr (Or.inr named))
      · exact fun slot same => Or.inr (Or.inr (Or.inl same))
    · rintro slot (same | same)
      · exact Or.inl same
      · exact Or.inr (Or.inl same)
  rw [← early.present _ (fileMetaV2RelationshipDir_last id) (fun _ => early_outside), entries,
    ← early.listing _ (fileMetaV2RelationshipDir_last id) (fun _ => early_outside)]
  exact (clearDirectory_follows (place_fileMetaV2RelationshipDir id) ⟨fourth, faults⟩).mono fun _ _ => trivial

end SyncMetadataStore

end AeordbSync

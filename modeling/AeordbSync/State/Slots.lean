import AeordbSync.State.FileMetas

namespace AeordbSync
open Characters Effect StateStore

/-- A separator ends the part of a text that has none. -/
theorem append_slash_inj {front other rest more : Text} (free : '/' ∉ front) (free' : '/' ∉ other)
    (same : front ++ '/' :: rest = other ++ '/' :: more) : front = other ∧ rest = more := by
  induction front generalizing other with
  | nil =>
      cases other with
      | nil => simpa using same
      | cons c others =>
          have slash : '/' = c := by simpa using (List.cons.inj same).1
          exact absurd (slash ▸ List.mem_cons_self) free'
  | cons c front ih =>
      cases other with
      | nil =>
          have slash : c = '/' := by simpa using (List.cons.inj same).1
          exact absurd (slash ▸ List.mem_cons_self) free
      | cons d others =>
          obtain ⟨head, tail⟩ := List.cons.inj same
          rw [List.mem_cons, not_or] at free free'
          obtain ⟨equal, left⟩ := ih free.2 free'.2 tail
          exact ⟨by rw [head, equal], left⟩

theorem RelationshipId.ext_text {a b : RelationshipId} (same : a.text = b.text) : a = b := by
  cases a
  cases b
  cases same
  rfl

namespace Slot

def owner : Slot → RelationshipId
  | .checkpoint id => id
  | .migration id => id
  | .legacy id _ => id
  | .index id => id
  | .v2 id _ => id

theorem inside_injective (root : Text) {a b : RelationshipId} {name other : Text}
    (same : root ++ a.text ++ text "/" ++ name = root ++ b.text ++ text "/" ++ other) :
    a = b ∧ name = other := by
  simp only [List.append_assoc, List.append_cancel_left_eq] at same
  obtain ⟨ids, names⟩ := append_slash_inj a.flat b.flat same
  exact ⟨RelationshipId.ext_text ids, names⟩

theorem single_injective (root : Text) {a b : RelationshipId}
    (same : root ++ a.text ++ text ".json" = root ++ b.text ++ text ".json") : a = b := by
  simp only [List.append_assoc, List.append_cancel_left_eq, List.append_cancel_right_eq] at same
  exact RelationshipId.ext_text same

/-- No two places share a path. -/
theorem path_injective : Function.Injective path := by
  intro a b same
  cases a with
  | checkpoint id =>
      cases b with
      | checkpoint other => rw [single_injective _ same]
      | _ => exact absurd same (by simp [path, text, syncFilesDir, fileMetaV2RelationshipDir])
  | migration id =>
      cases b with
      | migration other => rw [single_injective _ same]
      | _ => exact absurd same (by simp [path, text, syncFilesDir, fileMetaV2RelationshipDir])
  | legacy id name =>
      cases b with
      | legacy other name' =>
          obtain ⟨ids, names⟩ := inside_injective _ same
          rw [ids, names]
      | _ => exact absurd same (by simp [path, text, syncFilesDir, fileMetaV2RelationshipDir])
  | index id =>
      cases b with
      | index other => rw [single_injective _ same]
      | _ => exact absurd same (by simp [path, text, syncFilesDir, fileMetaV2RelationshipDir])
  | v2 id name =>
      cases b with
      | v2 other name' =>
          obtain ⟨ids, names⟩ := inside_injective _ same
          rw [ids, names]
      | _ => exact absurd same (by simp [path, text, syncFilesDir, fileMetaV2RelationshipDir])

theorem isDocument_checkpoint (id : RelationshipId) : IsDocument (path (.checkpoint id)) :=
  List.suffix_append _ _

theorem isDocument_migration (id : RelationshipId) : IsDocument (path (.migration id)) :=
  List.suffix_append _ _

theorem isDocument_index (id : RelationshipId) : IsDocument (path (.index id)) := List.suffix_append _ _

theorem isDocument_legacy {id : RelationshipId} {name : Text} (json : text ".json" <:+ name) :
    IsDocument (path (.legacy id name)) := json.trans (List.suffix_append _ _)

theorem isDocument_v2 {id : RelationshipId} {name : Text} (json : text ".json" <:+ name) :
    IsDocument (path (.v2 id name)) := json.trans (List.suffix_append _ _)

end Slot

/-- The documents of the client by their places. -/
def documents {σ : Type} (engine : StateEngine σ) (db : σ) (slot : Slot) : Option Json :=
  engine.file db slot.path

namespace StateEngine

variable {σ : Type} (engine : StateEngine σ) (db : σ)

theorem documents_put_one (slot : Slot) (json : Json) :
    documents engine (engine.put [(slot.path, json)] db) =
      Function.update (documents engine db) slot (some json) := by
  funext other
  rw [documents, engine.file_put _ _ _ (by simp)]
  by_cases same : other = slot
  · subst same
    simp
  · have differs : other.path ≠ slot.path := fun equal => same (Slot.path_injective equal)
    have missing : [(slot.path, json)].lookup other.path = none := by
      simp [List.lookup, beq_eq_false_iff_ne.mpr differs]
    rw [missing, Function.update_of_ne same]
    rfl

theorem documents_patch_one (slot : Slot) (json : Json) :
    documents engine (engine.patch [(slot.path, json)] db) =
      Function.update (documents engine db) slot
        (some (((documents engine db slot).getD (.object [])).merge 2 json)) := by
  funext other
  rw [documents, engine.file_patch _ _ _ (by simp)]
  by_cases same : other = slot
  · subst same
    simp [documents]
  · have differs : other.path ≠ slot.path := fun equal => same (Slot.path_injective equal)
    have missing : [(slot.path, json)].lookup other.path = none := by
      simp [List.lookup, beq_eq_false_iff_ne.mpr differs]
    rw [missing, Function.update_of_ne same]
    rfl

theorem documents_erase (slot : Slot) :
    documents engine (engine.erase slot.path db) = Function.update (documents engine db) slot none := by
  funext other
  rw [documents, engine.file_erase]
  by_cases same : other = slot
  · subst same
    simp
  · have differs : other.path ≠ slot.path := fun equal => same (Slot.path_injective equal)
    rw [if_neg differs, Function.update_of_ne same]
    rfl

theorem present_slot {slot : Slot} (document : IsDocument slot.path) :
    engine.present db slot.path = (documents engine db slot).isSome := engine.present_document db _ document

end StateEngine

end AeordbSync

import AeordbSync.State.Writing

namespace AeordbSync
open Characters Effect StateStore

/-- The places of a directory are named by its entries. -/
structure Place (directory : Text) (slot : Text → Slot) : Prop where
  named : ∀ name, (slot name).path = directory ++ name
  ends : directory.getLast? = some '/'

theorem place_syncFilesDir (id : RelationshipId) : Place (syncFilesDir id) (Slot.legacy id) :=
  ⟨fun _ => rfl, syncFilesDir_last id⟩

theorem place_fileMetaV2RelationshipDir (id : RelationshipId) :
    Place (fileMetaV2RelationshipDir id) (Slot.v2 id) :=
  ⟨fun _ => rfl, fileMetaV2RelationshipDir_last id⟩

variable {σ : Type} {engine : StateEngine σ} {blake3 : PathHash} {known : Set Text} {db : σ}
  {id : RelationshipId} {view : View}

/-- A file of a record that is no longer in the map is gone from the single records. -/
theorem Legacy.files_remove {docs : Slot → Option Json} (legacy : Legacy blake3 docs id view)
    (after : Slot → Option Json) (path : Text) (erased : after (.legacy id (legacyName blake3 path)) = none)
    (kept : ∀ name, name ≠ legacyName blake3 path → after (.legacy id name) = docs (.legacy id name)) :
    ∀ name json, name ≠ text ".keep" → after (.legacy id name) = some json →
      ∃ record, view.remove path record.path = some record ∧ name = legacyName blake3 record.path ∧
        FileSyncMeta.ofJson json = some record := by
  intro name json other stored
  have differs : name ≠ legacyName blake3 path := by
    rintro rfl
    rw [erased] at stored
    cases stored
  rw [kept name differs] at stored
  obtain ⟨record, found, same, decoded⟩ := legacy.files name json other stored
  refine ⟨record, ?_, same, decoded⟩
  rw [View.remove, if_neg, found]
  rintro rfl
  exact differs same

theorem remove_keyed (keyed : ∀ path record, view path = some record → record.path = path) (gone : Text) :
    ∀ path record, view.remove gone path = some record → record.path = path := by
  intro path record found
  rw [View.remove] at found
  split at found
  · cases found
  · exact keyed path record found

theorem remove_inside (inside : ∀ path record, view path = some record → path ∈ known) (gone : Text) :
    ∀ path record, view.remove gone path = some record → path ∈ known := by
  intro path record found
  rw [View.remove] at found
  split at found
  · cases found
  · exact inside path record found

namespace SyncMetadataStore

/-- Afterwards the document is gone, whether or not it was there. -/
theorem deleteIfPresent_quiet (engine : StateEngine σ) (db : σ) {slot : Slot}
    (document : IsDocument slot.path) :
    ∃ after, deleteIfPresent engine slot.path (quiet db) = (.ok (), quiet after) ∧
      documents engine after = Function.update (documents engine db) slot none := by
  have present := engine.present_slot db document
  cases stored : documents engine db slot with
  | none =>
      rw [stored] at present
      refine ⟨db, ?_, ?_⟩
      · simp [deleteIfPresent, Proc.bind_apply, present]
      · rw [← stored, Function.update_eq_self]
  | some json =>
      rw [stored] at present
      refine ⟨engine.erase slot.path db, ?_, engine.documents_erase db slot⟩
      simp [deleteIfPresent, Proc.bind_apply, present]

theorem deleteEach_quiet (engine : StateEngine σ) {directory : Text} {slot : Text → Slot} (place : Place directory slot)
    (names : List Text) (db : σ) :
    ∃ after, Proc.forEach names (fun entry => delete engine (directory ++ entry)) (quiet db) =
        (.ok (), quiet after) ∧
      (∀ name ∈ names, documents engine after (slot name) = none) ∧
      ∀ other, (∀ name ∈ names, other ≠ slot name) → documents engine after other = documents engine db other := by
  induction names generalizing db with
  | nil => exact ⟨db, rfl, by simp, fun _ _ => rfl⟩
  | cons name rest ih =>
      obtain ⟨after, ran, gone, kept⟩ := ih (engine.erase (directory ++ name) db)
      have erased := engine.documents_erase db (slot name)
      rw [place.named] at erased
      refine ⟨after, ?_, ?_, ?_⟩
      · simp only [Proc.forEach_cons, Proc.bind_apply, delete_quiet, ran]
      · intro other inside
        by_cases later : ∃ more ∈ rest, slot other = slot more
        · obtain ⟨more, listed, same⟩ := later
          rw [same]
          exact gone more listed
        · have first : other = name := by
            rcases List.mem_cons.mp inside with same | listed
            · exact same
            · exact absurd ⟨other, listed, rfl⟩ later
          rw [kept _ (by simpa using later), erased, first, Function.update_self]
      · intro other outside
        rw [kept other fun more listed => outside more (List.mem_cons_of_mem _ listed), erased,
          Function.update_of_ne (outside name List.mem_cons_self)]

/-- Afterwards a directory holds at most its marker. -/
theorem clearDirectory_quiet {directory : Text} {slot : Text → Slot} (place : Place directory slot)
    (named : ∀ name, (documents engine db (slot name)).isSome = true → name ≠ [] ∧ '/' ∉ name) :
    ∃ after, clearDirectory engine directory (quiet db) = (.ok (), quiet after) ∧
      (∀ name, name ≠ text ".keep" → documents engine after (slot name) = none) ∧
      ∀ other, (∀ name, name ≠ text ".keep" → other ≠ slot name) →
        documents engine after other = documents engine db other := by
  have content : ∀ name, engine.file db (directory ++ name) = documents engine db (slot name) := by
    intro name
    rw [documents, place.named]
  cases present : engine.present db directory with
  | false =>
      refine ⟨db, ?_, ?_, fun _ _ => rfl⟩
      · simp [clearDirectory, Proc.bind_apply, present]
      · intro name _
        cases stored : documents engine db (slot name) with
        | none => rfl
        | some json =>
            have flat := (named name (by rw [stored]; rfl)).2
            rw [engine.present_directory db _ _ place.ends flat (by rw [content, stored]; rfl)] at present
            cases present
  | true =>
      obtain ⟨after, ran, gone, kept⟩ := deleteEach_quiet engine place
        ((engine.listing db directory).filter (· ≠ text ".keep")) db
      refine ⟨after, ?_, ?_, ?_⟩
      · simp only [clearDirectory, Proc.bind_apply, pathExists_quiet, present, if_true, listDirectory_quiet]
        exact ran
      · intro name other
        by_cases listed : name ∈ engine.listing db directory
        · exact gone name (List.mem_filter.mpr ⟨listed, by simpa using other⟩)
        · cases stored : documents engine db (slot name) with
          | none =>
              by_cases hit : ∃ more ∈ (engine.listing db directory).filter (· ≠ text ".keep"), slot name = slot more
              · obtain ⟨more, inside, same⟩ := hit
                rw [same]
                exact gone more inside
              · rw [kept _ (by simpa using hit), stored]
          | some json =>
              obtain ⟨nonempty, flat⟩ := named name (by rw [stored]; rfl)
              exact absurd (engine.mem_listing db _ _ place.ends nonempty flat (by rw [content, stored]; rfl))
                listed
      · intro other outside
        apply kept
        intro name inside
        exact outside name (by simpa using (List.mem_filter.mp inside).2)

/-- Before the migration a record is taken out of the index and of the single records. -/
theorem deleteFileMeta_legacy (denotes : Denotes blake3 known (documents engine db) id view)
    (injective : Set.InjOn blake3.hash known) (legacy : Legacy blake3 (documents engine db) id view)
    {path : Text} (member : path ∈ known) :
    ∃ after, deleteFileMeta engine blake3 id path (quiet db) = (.ok (), quiet after) ∧
      Local engine id db after ∧ Denotes blake3 known (documents engine after) id (view.remove path) := by
  have manifest := hasV2Manifest_quiet engine db id
  have missing : documents engine db (.v2 id manifestName) = none := legacy.fresh _ (by decide)
  rw [missing] at manifest
  obtain ⟨index, loaded, looked⟩ := loadLegacyFileMetaIndex_quiet denotes injective legacy
  have document : IsDocument (Slot.path (.legacy id (legacyName blake3 path))) :=
    Slot.isDocument_legacy (List.suffix_append _ _)
  cases found : view path with
  | none =>
      obtain ⟨after, ran, changed⟩ := deleteIfPresent_quiet engine db document
      have unchanged : view.remove path = view := by
        funext other
        rw [View.remove]
        split
        next same => rw [same, found]
        · rfl
      have kept : ∀ slot, slot ≠ .legacy id (legacyName blake3 path) →
          documents engine after slot = documents engine db slot := by
        intro slot other
        rw [changed, Function.update_of_ne other]
      have files := legacy.files_remove (documents engine after) path
        (by rw [changed, Function.update_self]) fun name other => kept _ (by simpa using other)
      rw [unchanged] at files
      refine ⟨after, ?_, ?_, ?_⟩
      · simp only [deleteFileMeta, Proc.bind_apply, manifest, Option.isSome_none, Bool.false_eq_true, if_false,
          loaded, looked, found]
        exact ran
      · intro slot foreign
        exact kept slot (by rintro rfl; exact foreign rfl)
      · rw [unchanged]
        refine ⟨denotes.keyed, denotes.inside, ?_, ?_, Or.inl ⟨?_, files, ?_⟩⟩
        · intro name stored
          apply denotes.legacyNames name
          rw [changed, Function.update_apply] at stored
          split at stored
          · cases stored
          · exact stored
        · intro name
          rw [kept _ (by simp)]
          exact denotes.v2Names name
        · intro name
          rw [kept _ (by simp)]
          exact legacy.fresh name
        · rcases legacy.index with ⟨absent, single⟩ | stored
          · left
            refine ⟨by rw [kept _ (by simp)]; exact absent, ?_⟩
            intro other record present
            rw [kept]
            · exact single other record present
            · intro same
              simp only [Slot.legacy.injEq, true_and] at same
              have equal := injective (denotes.inside other record present) member (legacyName_inj same)
              rw [equal, found] at present
              cases present
          · right
            rw [kept _ (by simp)]
            exact stored
  | some old =>
      obtain ⟨read, decoded, held⟩ := Items.ofJson_json (index.erase path)
      have written := engine.documents_put_one db (.index id) (Items.json (index.erase path))
      obtain ⟨after, ran, changed⟩ := deleteIfPresent_quiet engine
        (engine.put [((Slot.index id).path, Items.json (index.erase path))] db) document
      rw [written] at changed
      have kept : ∀ slot, slot ≠ .legacy id (legacyName blake3 path) → slot ≠ .index id →
          documents engine after slot = documents engine db slot := by
        intro slot other another
        rw [changed, Function.update_of_ne other, Function.update_of_ne another]
      refine ⟨after, ?_, ?_, ?_⟩
      · simp only [deleteFileMeta, storeLegacyFileMetaIndex, Proc.bind_apply, manifest, Option.isSome_none,
          Bool.false_eq_true, if_false, loaded, looked, found, Option.isSome_some, if_true, storeJson_quiet]
        exact ran
      · intro slot foreign
        exact kept slot (by rintro rfl; exact foreign rfl) (by rintro rfl; exact foreign rfl)
      · refine ⟨remove_keyed denotes.keyed path, remove_inside denotes.inside path, ?_, ?_,
          Or.inl ⟨?_, ?_, Or.inr ?_⟩⟩
        · intro name stored
          apply denotes.legacyNames name
          rw [changed, Function.update_apply] at stored
          split at stored
          · cases stored
          · rwa [Function.update_of_ne (by simp)] at stored
        · intro name
          rw [kept _ (by simp) (by simp)]
          exact denotes.v2Names name
        · intro name
          rw [kept _ (by simp) (by simp)]
          exact legacy.fresh name
        · apply legacy.files_remove
          · rw [changed, Function.update_self]
          · intro name other
            exact kept _ (by simpa using other) (by simp)
        · refine ⟨Items.json (index.erase path), read, ?_, decoded, ?_⟩
          · rw [changed, Function.update_of_ne (by simp), Function.update_self]
          · intro other
            rw [held, View.remove]
            split
            next same =>
              subst same
              exact AList.lookup_erase ..
            next differs =>
              rw [← looked]
              exact AList.lookup_erase_ne differs

/-- After the migration a record is taken out of its bucket. -/
theorem deleteFileMeta_v2 (denotes : Denotes blake3 known (documents engine db) id view)
    (injective : Set.InjOn blake3.hash known) (v2 : V2 blake3 (documents engine db) id view)
    {path : Text} (member : path ∈ known) :
    ∃ after, deleteFileMeta engine blake3 id path (quiet db) = (.ok (), quiet after) ∧
      Local engine id db after ∧ Denotes blake3 known (documents engine after) id (view.remove path) := by
  have manifest := hasV2Manifest_quiet engine db id
  rw [v2.manifest] at manifest
  obtain ⟨named, flat⟩ := bucket_of_hash blake3 path
  have changed := engine.documents_patch_one db (fileMetaBucketKey id (blake3.hash path))
    (deletePatch (blake3.hash path))
  generalize reached : engine.patch [((fileMetaBucketKey id (blake3.hash path)).path,
    deletePatch (blake3.hash path))] db = after at changed
  have kept : ∀ slot, slot ≠ fileMetaBucketKey id (blake3.hash path) →
      documents engine after slot = documents engine db slot := by
    intro slot other
    rw [changed, Function.update_of_ne other]
  refine ⟨after, ?_, ?_, remove_keyed denotes.keyed path, remove_inside denotes.inside path, ?_, ?_, Or.inr ⟨?_, ?_⟩⟩
  · simp only [deleteFileMeta, Proc.bind_apply, manifest, if_true, mergeJsonFile_quiet, reached]
  · intro slot foreign
    exact kept slot (by rintro rfl; exact foreign rfl)
  · intro name
    rw [kept _ (by simp [fileMetaBucketKey, fileMetaBucketKeyForBucket])]
    exact denotes.legacyNames name
  · intro name stored
    by_cases bucket : name = bucketName (fileMetaBucketFromHash (blake3.hash path))
    · rw [bucket]
      exact bucketName_flat flat
    · rw [kept _ (by simpa [fileMetaBucketKey, fileMetaBucketKeyForBucket] using bucket)] at stored
      exact denotes.v2Names name stored
  · rw [kept]
    · exact v2.manifest
    · intro same
      simp only [fileMetaBucketKey, fileMetaBucketKeyForBucket, Slot.v2.injEq, true_and] at same
      exact bucketName_ne_manifest named same.symm
  · intro bucket different
    obtain ⟨shown, represents, bucketed⟩ := v2.buckets bucket different
    refine ⟨_, ?_, bucketed_remove bucketed denotes.inside injective member⟩
    by_cases own : bucket = fileMetaBucketFromHash (blake3.hash path)
    · subst own
      rw [changed, fileMetaBucketKey, fileMetaBucketKeyForBucket, Function.update_self]
      exact represents.remove (blake3.hash path)
    · rw [kept]
      · apply represents.congr
        intro pathHash
        split
        next same =>
          cases held : shown pathHash with
          | none => rfl
          | some record =>
              have belongs := ((bucketed pathHash record).mp held).1
              rw [same] at belongs
              exact absurd belongs.symm own
        · rfl
      · intro same
        simp only [fileMetaBucketKey, fileMetaBucketKeyForBucket, Slot.v2.injEq, true_and] at same
        exact own (bucketName_inj same)

/-- A deletion takes the record of the path out of the map. -/
theorem deleteFileMeta_quiet (denotes : Denotes blake3 known (documents engine db) id view)
    (injective : Set.InjOn blake3.hash known) {path : Text} (member : path ∈ known) :
    ∃ after, deleteFileMeta engine blake3 id path (quiet db) = (.ok (), quiet after) ∧
      Local engine id db after ∧ Denotes blake3 known (documents engine after) id (view.remove path) := by
  rcases denotes.generation with legacy | v2
  · exact deleteFileMeta_legacy denotes injective legacy member
  · exact deleteFileMeta_v2 denotes injective v2 member

/-- Clearing leaves the empty map, as before any migration. -/
theorem clearRelationshipState_quiet (denotes : Denotes blake3 known (documents engine db) id view) :
    ∃ after, clearRelationshipState engine id (quiet db) = (.ok (), quiet after) ∧
      Local engine id db after ∧ Denotes blake3 known (documents engine after) id fun _ => none := by
  obtain ⟨first, checkpoint, one⟩ := deleteIfPresent_quiet engine db (Slot.isDocument_checkpoint id)
  obtain ⟨second, migration, two⟩ := deleteIfPresent_quiet engine first (Slot.isDocument_migration id)
  have early : ∀ slot, slot ≠ .checkpoint id → slot ≠ .migration id →
      documents engine second slot = documents engine db slot := by
    intro slot other another
    rw [two, Function.update_of_ne another, one, Function.update_of_ne other]
  have names : ∀ name, (documents engine second (.legacy id name)).isSome = true → name ≠ [] ∧ '/' ∉ name := by
    intro name
    rw [early _ (by simp) (by simp)]
    exact denotes.legacyNames name
  obtain ⟨third, files, noFile, three⟩ := clearDirectory_quiet (place_syncFilesDir id) names
  obtain ⟨fourth, index, four⟩ := deleteIfPresent_quiet engine third (Slot.isDocument_index id)
  have middle : ∀ name, documents engine fourth (.v2 id name) = documents engine db (.v2 id name) := by
    intro name
    rw [four, Function.update_of_ne (by simp), three _ (by simp), early _ (by simp) (by simp)]
  have buckets : ∀ name, (documents engine fourth (.v2 id name)).isSome = true → name ≠ [] ∧ '/' ∉ name := by
    intro name
    rw [middle]
    exact denotes.v2Names name
  obtain ⟨after, v2, noBucket, five⟩ := clearDirectory_quiet (place_fileMetaV2RelationshipDir id) buckets
  have late : ∀ slot, (∀ name, slot ≠ .v2 id name) →
      documents engine after slot = documents engine fourth slot := fun slot other =>
    five slot fun name _ => other name
  have gone : ∀ name, name ≠ text ".keep" → documents engine after (.legacy id name) = none := by
    intro name other
    rw [late _ (by simp), four, Function.update_of_ne (by simp)]
    exact noFile name other
  refine ⟨after, ?_, ?_, ?_⟩
  · simp only [clearRelationshipState, clearCheckpoint, clearPathMigration, Proc.bind_apply, checkpoint,
      migration, files, index, v2]
  · intro slot foreign
    have away : ∀ other : Slot, other.owner = id → slot ≠ other := by
      rintro other owned rfl
      exact foreign owned
    rw [late slot fun name => away _ rfl, four, Function.update_of_ne (away _ rfl),
      three slot fun name _ => away _ rfl, early slot (away _ rfl) (away _ rfl)]
  · refine ⟨by simp, by simp, ?_, ?_, Or.inl ⟨noBucket, ?_, Or.inl ⟨?_, by simp⟩⟩⟩
    · intro name stored
      by_cases keep : name = text ".keep"
      · rw [keep]
        decide
      · rw [gone name keep] at stored
        cases stored
    · intro name stored
      by_cases keep : name = text ".keep"
      · rw [keep]
        decide
      · rw [noBucket name keep] at stored
        cases stored
    · intro name json other stored
      rw [gone name other] at stored
      cases stored
    · rw [late _ (by simp), four, Function.update_self]

end SyncMetadataStore

end AeordbSync

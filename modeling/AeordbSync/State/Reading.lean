import AeordbSync.State.Denotes

namespace AeordbSync
open Characters Effect StateStore SyncMetadataStore

theorem syncFilesDir_last (id : RelationshipId) : (syncFilesDir id).getLast? = some '/' := by
  exact List.getLast?_concat

theorem fileMetaV2RelationshipDir_last (id : RelationshipId) :
    (fileMetaV2RelationshipDir id).getLast? = some '/' := by
  exact List.getLast?_concat

/-- Distinct entries that show distinct values. -/
theorem nodup_filterMap {α β : Type} {f : α → Option β} {entries : List α} (nodup : entries.Nodup)
    (injective : ∀ a ∈ entries, ∀ b ∈ entries, ∀ value, f a = some value → f b = some value → a = b) :
    (entries.filterMap f).Nodup := by
  induction entries with
  | nil => exact List.nodup_nil
  | cons first rest ih =>
      obtain ⟨fresh, distinct⟩ := List.nodup_cons.mp nodup
      have later := ih distinct fun a inside b member =>
        injective a (List.mem_cons_of_mem _ inside) b (List.mem_cons_of_mem _ member)
      cases shown : f first with
      | none =>
          rw [List.filterMap_cons_none shown]
          exact later
      | some value =>
          rw [List.filterMap_cons_some shown, List.nodup_cons]
          refine ⟨?_, later⟩
          intro repeated
          obtain ⟨other, inside, same⟩ := List.mem_filterMap.mp repeated
          have equal := injective first List.mem_cons_self other (List.mem_cons_of_mem _ inside) value shown same
          exact fresh (equal ▸ inside)

namespace SyncMetadataStore

variable {σ : Type} {engine : StateEngine σ} {blake3 : PathHash} {known : Set Text} {db : σ}
  {id : RelationshipId} {view : View}

theorem hasV2Manifest_quiet (engine : StateEngine σ) (db : σ) (id : RelationshipId) :
    hasV2Manifest engine id (quiet db) =
    (.ok (documents engine db (.v2 id manifestName)).isSome, quiet db) := by
  rw [hasV2Manifest, pathExists_quiet, engine.present_slot db (Slot.isDocument_v2 (by decide))]

/-- A name of the directory that is no document has no content either. -/
theorem readAll_quiet {α : Type} (decode : Json → Option α) {directory : Text} {names : List Text}
    (readable : ∀ name ∈ names, IsDocument (directory ++ name) ∨ engine.file db (directory ++ name) = none) :
    readAll engine decode directory names (quiet db) =
      (.ok (names.filterMap fun name => (engine.file db (directory ++ name)).bind decode), quiet db) := by
  induction names with
  | nil => rfl
  | cons name rest ih =>
      have later := ih fun other inside => readable other (List.mem_cons_of_mem _ inside)
      have first : readJson engine decode (directory ++ name) (quiet db) =
          (.ok ((engine.file db (directory ++ name)).bind decode), quiet db) := by
        rcases readable name List.mem_cons_self with document | absent
        · exact readJson_quiet engine decode document db
        · rw [absent]
          exact readJson_absent engine decode absent
      simp only [readAll, Proc.bind_apply, first, later, Proc.pure_apply]
      cases shown : (engine.file db (directory ++ name)).bind decode with
      | none => simp [shown]
      | some value => simp [shown]

/-- The single records, whether or not an index has replaced them. -/
theorem listFileMetasLegacy_quiet (denotes : Denotes blake3 known (documents engine db) id view)
    (legacy : Legacy blake3 (documents engine db) id view) :
    ∃ records, listFileMetasLegacy engine id (quiet db) = (.ok records, quiet db) ∧ records.Nodup ∧
      (∀ record ∈ records, view record.path = some record) ∧
      ∀ path record, view path = some record → Set.InjOn blake3.hash known →
        (documents engine db (.legacy id (legacyName blake3 path))).isSome = true → record ∈ records := by
  have content : ∀ name, engine.file db (syncFilesDir id ++ name) = documents engine db (.legacy id name) :=
    fun name => rfl
  cases present : engine.present db (syncFilesDir id) with
  | false =>
      refine ⟨[], ?_, List.nodup_nil, by simp, ?_⟩
      · simp [listFileMetasLegacy, Proc.bind_apply, present]
      · intro path record found injective some
        obtain ⟨named, flat⟩ := denotes.legacyNames _ some
        rw [engine.present_directory db _ _ (syncFilesDir_last id) flat some] at present
        cases present
  | true =>
      have readable : ∀ name ∈ (engine.listing db (syncFilesDir id)).filter (· ≠ text ".keep"),
          IsDocument (syncFilesDir id ++ name) ∨ engine.file db (syncFilesDir id ++ name) = none := by
        intro name inside
        cases stored : engine.file db (syncFilesDir id ++ name) with
        | none => exact Or.inr rfl
        | some json =>
            have other : name ≠ text ".keep" := by simpa using (List.mem_filter.mp inside).2
            obtain ⟨record, -, rfl, -⟩ := legacy.files name json other stored
            exact Or.inl (Slot.isDocument_legacy (List.suffix_append _ _))
      have shows : ∀ name ∈ (engine.listing db (syncFilesDir id)).filter (· ≠ text ".keep"), ∀ record,
          (engine.file db (syncFilesDir id ++ name)).bind FileSyncMeta.ofJson = some record →
          view record.path = some record ∧ name = legacyName blake3 record.path := by
        intro name inside record shown
        have other : name ≠ text ".keep" := by simpa using (List.mem_filter.mp inside).2
        obtain ⟨json, stored, read⟩ := Option.bind_eq_some_iff.mp shown
        obtain ⟨found, kept, named, decoded⟩ := legacy.files name json other stored
        rw [read, Option.some.injEq] at decoded
        subst found
        exact ⟨kept, named⟩
      have ran : listFileMetasLegacy engine id (quiet db) =
          (.ok (((engine.listing db (syncFilesDir id)).filter (· ≠ text ".keep")).filterMap fun name =>
            (engine.file db (syncFilesDir id ++ name)).bind FileSyncMeta.ofJson), quiet db) := by
        simp only [listFileMetasLegacy, Proc.bind_apply, pathExists_quiet, present, if_true,
          listDirectory_quiet]
        exact readAll_quiet FileSyncMeta.ofJson readable
      refine ⟨_, ran, ?_, ?_, ?_⟩
      · apply nodup_filterMap ((engine.nodup_listing db _).filter _)
        intro first inside second member record shown same
        rw [(shows first inside record shown).2, (shows second member record same).2]
      · intro record inside
        obtain ⟨name, listed, shown⟩ := List.mem_filterMap.mp inside
        exact (shows name listed record shown).1
      · intro path record found injective stored
        obtain ⟨named, flat⟩ := denotes.legacyNames _ stored
        have listed := engine.mem_listing db _ _ (syncFilesDir_last id) named flat stored
        obtain ⟨json, content⟩ := Option.isSome_iff_exists.mp stored
        obtain ⟨other, kept, same, decoded⟩ := legacy.files _ json (legacyName_ne_keep path) content
        have equal : other.path = path :=
          denotes.path_of_hash injective (denotes.inside path record found) kept (legacyName_inj same).symm
        rw [equal, found, Option.some.injEq] at kept
        subst other
        rw [List.mem_filterMap]
        refine ⟨legacyName blake3 path, ?_, ?_⟩
        · rw [List.mem_filter]
          exact ⟨listed, by simpa using legacyName_ne_keep path⟩
        · have stored : engine.file db (syncFilesDir id ++ legacyName blake3 path) = some json := content
          rw [stored]
          exact decoded

/-- Collecting records into a map is writing them one after the other. -/
theorem collected_eq (metas : List FileSyncMeta) : collected metas = (Records.empty.setAll metas).map := by
  have general : ∀ (records : Records), metas.foldl (fun index record => index.insert record.path record)
      records.map = (records.setAll metas).map := by
    induction metas with
    | nil => exact fun _ => rfl
    | cons record rest ih => exact fun records => ih (records.set record)
  exact general Records.empty

theorem lookup_collected {metas : List FileSyncMeta} (shown : ∀ record ∈ metas, view record.path = some record)
    (covered : ∀ path record, view path = some record → record ∈ metas)
    (keyed : ∀ path record, view path = some record → record.path = path) (path : Text) :
    (collected metas).lookup path = view path := by
  rw [collected_eq]
  show (Records.empty.setAll metas).find path = view path
  cases found : view path with
  | none =>
      have absent : ∀ record ∈ metas, record.path ≠ path := by
        intro record inside same
        rw [← same, shown record inside] at found
        cases found
      rw [Records.find_setAll_other absent, Records.find_empty]
  | some record =>
      obtain ⟨other, inside, same, latest⟩ := Records.find_setAll_covered .empty
        ⟨record, covered path record found, keyed path record found⟩
      have equal := shown other inside
      rw [same, found, Option.some.injEq] at equal
      rw [latest, equal]

/-- Before the migration the index is read from its document or made of the single records. -/
theorem loadLegacyFileMetaIndex_quiet (denotes : Denotes blake3 known (documents engine db) id view)
    (injective : Set.InjOn blake3.hash known) (legacy : Legacy blake3 (documents engine db) id view) :
    ∃ index, loadLegacyFileMetaIndex engine id (quiet db) = (.ok index, quiet db) ∧
      ∀ path, index.lookup path = view path := by
  have read := readJson_quiet engine Items.ofJson (Slot.isDocument_index id) db
  rcases legacy.index with ⟨absent, single⟩ | ⟨json, index, stored, decoded, looked⟩
  · obtain ⟨records, listed, -, shown, covered⟩ := listFileMetasLegacy_quiet denotes legacy
    have missing : engine.file db (Slot.index id).path = none := absent
    rw [missing] at read
    refine ⟨collected records, ?_, ?_⟩
    · simp only [loadLegacyFileMetaIndex, Proc.bind_apply, read, Option.bind_none, listed, Proc.pure_apply]
    · intro path
      apply lookup_collected shown _ denotes.keyed
      intro other record found
      exact covered other record found injective (single other record found)
  · have content : engine.file db (Slot.index id).path = some json := stored
    rw [content] at read
    refine ⟨index, ?_, looked⟩
    simp only [loadLegacyFileMetaIndex, Proc.bind_apply, read, Option.bind_some, decoded, Proc.pure_apply]

theorem V2.shown_hash {bucket : Text} {shown : View} (bucketed : Bucketed blake3 view bucket shown)
    (denotes : Denotes blake3 known (documents engine db) id view) (injective : Set.InjOn blake3.hash known)
    {path : Text} (member : path ∈ known) (belongs : fileMetaBucketFromHash (blake3.hash path) = bucket) :
    shown (blake3.hash path) = view path := by
  cases found : shown (blake3.hash path) with
  | some record =>
      obtain ⟨-, same, kept⟩ := (bucketed _ record).mp found
      rw [denotes.path_of_hash injective member kept same] at kept
      exact kept.symm
  | none =>
      cases kept : view path with
      | none => rfl
      | some record =>
          have named := denotes.keyed path record kept
          have holds : shown (blake3.hash path) = some record :=
            (bucketed _ record).mpr ⟨belongs, by rw [named], by rw [named]; exact kept⟩
          rw [found] at holds
          cases holds

/-- A read answers what the map says about the path. -/
theorem getFileMeta_quiet (denotes : Denotes blake3 known (documents engine db) id view)
    (injective : Set.InjOn blake3.hash known) {path : Text} (member : path ∈ known) :
    getFileMeta engine blake3 id path (quiet db) = (.ok (view path), quiet db) := by
  have manifest := hasV2Manifest_quiet engine db id
  rcases denotes.generation with legacy | v2
  · have missing : documents engine db (.v2 id manifestName) = none := legacy.fresh _ (by decide)
    rw [missing] at manifest
    obtain ⟨index, loaded, looked⟩ := loadLegacyFileMetaIndex_quiet denotes injective legacy
    cases found : view path with
    | some record =>
        simp [getFileMeta, Proc.bind_apply, manifest, loaded, looked, found]
    | none =>
        have absent : engine.file db (fileMetaKey blake3 id path).path = none := by
          cases stored : engine.file db (fileMetaKey blake3 id path).path with
          | none => rfl
          | some json =>
              obtain ⟨record, kept, same, -⟩ := legacy.files _ json (legacyName_ne_keep path) stored
              have equal := denotes.path_of_hash injective member kept (legacyName_inj same).symm
              rw [equal, found] at kept
              cases kept
        simp [getFileMeta, Proc.bind_apply, manifest, loaded, looked, found,
          readJson_absent engine FileSyncMeta.ofJson absent]
  · obtain ⟨other, flat⟩ := bucket_of_hash blake3 path
    obtain ⟨shown, represents, bucketed⟩ := v2.buckets _ other
    have document : IsDocument
        (Slot.path (.v2 id (bucketName (fileMetaBucketFromHash (blake3.hash path))))) :=
      Slot.isDocument_v2 (List.suffix_append _ _)
    have read := readJson_quiet engine FileMetaBucket.ofJson document db
    have looked := represents.read (blake3.hash path)
    rw [V2.shown_hash bucketed denotes injective member rfl] at looked
    rw [v2.manifest] at manifest
    simp only [getFileMeta, Proc.bind_apply, manifest, if_true]
    rw [fileMetaBucketKey, fileMetaBucketKeyForBucket, read]
    simp only [Proc.pure_apply]
    rw [← looked]
    rfl

/-- The records that a listing takes from one document. -/
def bucketRecords (doc : Option Json) : List FileSyncMeta :=
  ((doc.bind FileMetaBucket.ofJson).map fun bucket => bucket.items.values).getD []

theorem mem_bucketRecords {doc : Option Json} {bucket : Text} {shown : View}
    (represents : Represents doc shown) (bucketed : Bucketed blake3 view bucket shown) :
    (bucketRecords doc).Nodup ∧ ∀ record, record ∈ bucketRecords doc ↔
      fileMetaBucketFromHash (blake3.hash record.path) = bucket ∧ view record.path = some record := by
  have looked := represents.read
  cases read : doc.bind FileMetaBucket.ofJson with
  | none =>
      rw [read] at looked
      refine ⟨by simp [bucketRecords, read], ?_⟩
      intro record
      simp only [bucketRecords, read, Option.map_none, Option.getD_none, List.not_mem_nil, false_iff]
      rintro ⟨belongs, kept⟩
      have found := (bucketed (blake3.hash record.path) record).mpr ⟨belongs, rfl, kept⟩
      rw [← looked] at found
      cases found
  | some content =>
      rw [read] at looked
      have same : ∀ name, content.items.lookup name = shown name := looked
      simp only [bucketRecords, read, Option.map_some, Option.getD_some]
      constructor
      · apply Items.nodup_values fun record => blake3.hash record.path
        intro key record found
        rw [same] at found
        exact ((bucketed key record).mp found).2.1.symm
      · intro record
        rw [Items.mem_values]
        constructor
        · rintro ⟨key, found⟩
          rw [same] at found
          obtain ⟨belongs, rfl, kept⟩ := (bucketed key record).mp found
          exact ⟨belongs, kept⟩
        · rintro ⟨belongs, kept⟩
          refine ⟨blake3.hash record.path, ?_⟩
          rw [same]
          exact (bucketed _ record).mpr ⟨belongs, rfl, kept⟩

theorem flatMap_bucketRecords (docs : List (Option Json)) :
    (docs.filterMap fun doc => doc.bind FileMetaBucket.ofJson).flatMap (fun bucket => bucket.items.values) =
      docs.flatMap bucketRecords := by
  induction docs with
  | nil => rfl
  | cons doc rest ih =>
      cases read : doc.bind FileMetaBucket.ofJson with
      | none => simp [read, bucketRecords, ih]
      | some bucket => simp [read, bucketRecords, ih]

/-- The records of the buckets, in the order of the listing. -/
theorem listFileMetasV2_quiet (denotes : Denotes blake3 known (documents engine db) id view)
    (v2 : V2 blake3 (documents engine db) id view) :
    ∃ records, listFileMetasV2 engine id (quiet db) = (.ok records, quiet db) ∧ records.Nodup ∧
      ∀ record, record ∈ records ↔ view record.path = some record := by
  have present : engine.present db (fileMetaV2RelationshipDir id) = true :=
    engine.present_directory db _ manifestName (fileMetaV2RelationshipDir_last id) (by decide) v2.manifest
  have named : ∀ name ∈ (engine.listing db (fileMetaV2RelationshipDir id)).filter isBucketEntry,
      ∃ bucket, bucket ≠ text "manifest" ∧ name = bucketName bucket := by
    intro name inside
    have fits := (List.mem_filter.mp inside).2
    simp only [isBucketEntry, decide_eq_true_eq] at fits
    obtain ⟨-, other, bucket, rfl⟩ := fits
    refine ⟨bucket, ?_, rfl⟩
    rintro rfl
    exact other rfl
  have readable : ∀ name ∈ (engine.listing db (fileMetaV2RelationshipDir id)).filter isBucketEntry,
      IsDocument (fileMetaV2RelationshipDir id ++ name) ∨
        engine.file db (fileMetaV2RelationshipDir id ++ name) = none := by
    intro name inside
    obtain ⟨bucket, -, rfl⟩ := named name inside
    exact Or.inl (Slot.isDocument_v2 (List.suffix_append _ _))
  have ran : listFileMetasV2 engine id (quiet db) =
      (.ok (((engine.listing db (fileMetaV2RelationshipDir id)).filter isBucketEntry).flatMap fun name =>
        bucketRecords (documents engine db (.v2 id name))), quiet db) := by
    have read := readAll_quiet FileMetaBucket.ofJson readable
    have values := flatMap_bucketRecords
      (((engine.listing db (fileMetaV2RelationshipDir id)).filter isBucketEntry).map fun name =>
        documents engine db (.v2 id name))
    rw [List.filterMap_map, List.flatMap_map] at values
    simp only [listFileMetasV2, Proc.bind_apply, pathExists_quiet, present, if_true, listDirectory_quiet,
      read, Proc.pure_apply]
    rw [← values]
    rfl
  have shows : ∀ name ∈ (engine.listing db (fileMetaV2RelationshipDir id)).filter isBucketEntry,
      (bucketRecords (documents engine db (.v2 id name))).Nodup ∧
        ∀ record, record ∈ bucketRecords (documents engine db (.v2 id name)) ↔
          name = bucketName (fileMetaBucketFromHash (blake3.hash record.path)) ∧
            view record.path = some record := by
    intro name inside
    obtain ⟨bucket, other, rfl⟩ := named name inside
    obtain ⟨shown, represents, bucketed⟩ := v2.buckets bucket other
    obtain ⟨nodup, members⟩ := mem_bucketRecords represents bucketed
    refine ⟨nodup, ?_⟩
    intro record
    rw [members]
    constructor
    · rintro ⟨rfl, kept⟩
      exact ⟨rfl, kept⟩
    · rintro ⟨same, kept⟩
      exact ⟨(bucketName_inj same).symm, kept⟩
  refine ⟨_, ran, ?_, ?_⟩
  · rw [List.nodup_flatMap]
    refine ⟨fun name inside => (shows name inside).1, ?_⟩
    apply ((engine.nodup_listing db _).filter _).pairwise_of_forall_ne
    intro first inside second member differs record one two
    have left := (((shows first inside).2 record).mp one).1
    have right := (((shows second member).2 record).mp two).1
    exact differs (left.trans right.symm)
  · intro record
    rw [List.mem_flatMap]
    constructor
    · rintro ⟨name, inside, listed⟩
      exact (((shows name inside).2 record).mp listed).2
    · intro kept
      have other := (bucket_of_hash blake3 record.path).1
      obtain ⟨shown, represents, bucketed⟩ := v2.buckets _ other
      obtain ⟨-, members⟩ := mem_bucketRecords represents bucketed
      have held := (members record).mpr ⟨rfl, kept⟩
      have stored : (documents engine db
          (.v2 id (bucketName (fileMetaBucketFromHash (blake3.hash record.path))))).isSome = true := by
        cases content : documents engine db
            (.v2 id (bucketName (fileMetaBucketFromHash (blake3.hash record.path)))) with
        | some json => rfl
        | none =>
            rw [content] at held
            cases held
      obtain ⟨nonempty, flat⟩ := denotes.v2Names _ stored
      refine ⟨_, List.mem_filter.mpr ⟨engine.mem_listing db _ _ (fileMetaV2RelationshipDir_last id)
        nonempty flat stored, ?_⟩, held⟩
      simp only [isBucketEntry, decide_eq_true_eq]
      refine ⟨?_, bucketName_ne_manifest other, List.suffix_append _ _⟩
      intro keep
      have json : text ".json" <:+ text ".keep" := ⟨_, keep⟩
      revert json
      decide

/-- A listing answers the records of the map, each of them once. -/
theorem listFileMetas_quiet (denotes : Denotes blake3 known (documents engine db) id view)
    (injective : Set.InjOn blake3.hash known) :
    ∃ records, listFileMetas engine id (quiet db) = (.ok records, quiet db) ∧ records.Nodup ∧
      ∀ record, record ∈ records ↔ view record.path = some record := by
  have manifest := hasV2Manifest_quiet engine db id
  rcases denotes.generation with legacy | v2
  · have missing : documents engine db (.v2 id manifestName) = none := legacy.fresh _ (by decide)
    rw [missing] at manifest
    obtain ⟨index, loaded, looked⟩ := loadLegacyFileMetaIndex_quiet denotes injective legacy
    by_cases empty : index.entries = []
    · obtain ⟨records, listed, nodup, shown, -⟩ := listFileMetasLegacy_quiet denotes legacy
      refine ⟨records, ?_, nodup, ?_⟩
      · simp [listFileMetas, Proc.bind_apply, manifest, loaded, empty, listed]
      · intro record
        refine ⟨shown record, ?_⟩
        intro kept
        rw [← looked] at kept
        have held : (⟨record.path, record⟩ : Sigma fun _ : Text => FileSyncMeta) ∈ index.entries :=
          List.of_mem_dlookup kept
        rw [empty] at held
        cases held
    · refine ⟨index.values, ?_, ?_, ?_⟩
      · simp [listFileMetas, Proc.bind_apply, manifest, loaded, empty]
      · apply Items.nodup_values FileSyncMeta.path
        intro key record found
        rw [looked] at found
        exact (denotes.keyed key record found).symm
      · intro record
        rw [Items.mem_values]
        constructor
        · rintro ⟨key, found⟩
          rw [looked] at found
          rwa [denotes.keyed key record found]
        · intro kept
          exact ⟨record.path, by rw [looked]; exact kept⟩
  · obtain ⟨records, listed, nodup, members⟩ := listFileMetasV2_quiet denotes v2
    rw [v2.manifest] at manifest
    refine ⟨records, ?_, nodup, members⟩
    simp only [listFileMetas, Proc.bind_apply, manifest, if_true]
    exact listed

end SyncMetadataStore

end AeordbSync

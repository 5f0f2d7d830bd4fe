import Mathlib.Data.List.Find
import AeordbSync.State.Reading

namespace AeordbSync
open Characters Effect StateStore SyncMetadataStore Grouping

/-- The last record of a batch whose path has the hash. -/
def latest (blake3 : PathHash) (metas : List FileSyncMeta) (pathHash : Text) : Option FileSyncMeta :=
  metas.reverse.find? fun record => blake3.hash record.path = pathHash

/-- The map after a batch. -/
def View.setAll (view : View) (metas : List FileSyncMeta) : View := fun path =>
  (metas.reverse.find? fun record => record.path = path).or (view path)

def View.remove (view : View) (gone : Text) : View := fun path => if path = gone then none else view path

variable {σ : Type} {engine : StateEngine σ} {blake3 : PathHash} {known : Set Text} {db : σ}
  {id : RelationshipId} {view : View} {metas : List FileSyncMeta}

/-- Only the documents of one relationship have changed. -/
def Local (engine : StateEngine σ) (id : RelationshipId) (db after : σ) : Prop :=
  ∀ slot : Slot, slot.owner ≠ id → documents engine after slot = documents engine db slot

theorem latest_of_mem_known (injective : Set.InjOn blake3.hash known)
    (members : ∀ record ∈ metas, record.path ∈ known) {path : Text} (member : path ∈ known) :
    latest blake3 metas (blake3.hash path) = metas.reverse.find? fun record => record.path = path := by
  apply List.find?_congr
  intro record inside
  have listed := members record (List.mem_reverse.mp inside)
  by_cases same : record.path = path
  · simp [same]
  · have differs : blake3.hash record.path ≠ blake3.hash path := fun equal =>
      same (injective listed member equal)
    simp [same, differs]

theorem of_latest {pathHash : Text} {record : FileSyncMeta}
    (found : latest blake3 metas pathHash = some record) :
    record ∈ metas ∧ blake3.hash record.path = pathHash := by
  have same := List.find?_some found
  exact ⟨List.mem_reverse.mp (List.mem_of_find?_eq_some found), by simpa using same⟩

/-- The records of the hash all lie in its bucket. -/
theorem latest_in_bucket (bucket pathHash : Text) :
    ((metas.filter fun record => fileMetaBucketFromHash (blake3.hash record.path) = bucket).reverse.find?
      fun record => blake3.hash record.path = pathHash) =
      if fileMetaBucketFromHash pathHash = bucket then latest blake3 metas pathHash else none := by
  rw [← List.filter_reverse, List.find?_filter]
  split
  next belongs =>
    apply List.find?_congr
    intro record inside
    by_cases same : blake3.hash record.path = pathHash
    · simp [same, belongs]
    · simp [same]
  next other =>
    rw [List.find?_eq_none]
    intro record inside fits
    simp only [decide_eq_true_eq] at fits
    rw [fits.2] at fits
    exact other fits.1

theorem lookup_indexBuckets (blake3 : PathHash) (index : Items) (bucket pathHash : Text) :
    (((indexBuckets blake3 index).lookup bucket).getD ∅).lookup pathHash =
      if fileMetaBucketFromHash pathHash = bucket then latest blake3 index.values pathHash else none := by
  rw [indexBuckets, lookup_grouped]
  refine (lookup_foldl_insert (fun record : FileSyncMeta => blake3.hash record.path) id _
    pathHash).trans ?_
  rw [latest_in_bucket, Option.map_id_apply]

theorem bucketKey_injective (id : RelationshipId) :
    Function.Injective fun bucket => (fileMetaBucketKeyForBucket id bucket).path := by
  intro a b same
  have slots : fileMetaBucketKeyForBucket id a = fileMetaBucketKeyForBucket id b := Slot.path_injective same
  simp only [fileMetaBucketKeyForBucket, Slot.v2.injEq] at slots
  exact bucketName_inj slots.2

theorem dlookup_bucketItems (blake3 : PathHash) (id : RelationshipId) (metas : List FileSyncMeta)
    (bucket pathHash : Text) :
    (((bucketItems blake3 id metas).lookup (fileMetaBucketKeyForBucket id bucket).path).getD []).dlookup
        pathHash =
      (if fileMetaBucketFromHash pathHash = bucket then latest blake3 metas pathHash else none).map
        FileSyncMeta.json := by
  have keys : (fun record : FileSyncMeta => decide ((fileMetaBucketKey id (blake3.hash record.path)).path =
      (fileMetaBucketKeyForBucket id bucket).path)) =
      fun record => decide (fileMetaBucketFromHash (blake3.hash record.path) = bucket) := by
    funext record
    exact decide_eq_decide.mpr (bucketKey_injective id).eq_iff
  rw [bucketItems, lookup_grouped]
  refine (dlookup_foldl_kinsert (fun record => blake3.hash record.path) FileSyncMeta.json _ pathHash).trans ?_
  rw [keys, latest_in_bucket]

theorem nodupKeys_bucketItems (blake3 : PathHash) (id : RelationshipId) (metas : List FileSyncMeta)
    (bucket : Text) :
    (((bucketItems blake3 id metas).lookup (fileMetaBucketKeyForBucket id bucket).path).getD
      []).NodupKeys := by
  rw [bucketItems, lookup_grouped]
  exact nodupKeys_foldl_kinsert _ _ _

theorem setAll_keyed (keyed : ∀ path record, view path = some record → record.path = path) :
    ∀ path record, view.setAll metas path = some record → record.path = path := by
  intro path record found
  rw [View.setAll, Option.or_eq_some_iff] at found
  rcases found with new | ⟨-, old⟩
  · simpa using List.find?_some new
  · exact keyed path record old

theorem setAll_inside (inside : ∀ path record, view path = some record → path ∈ known)
    (members : ∀ record ∈ metas, record.path ∈ known) :
    ∀ path record, view.setAll metas path = some record → path ∈ known := by
  intro path record found
  rw [View.setAll, Option.or_eq_some_iff] at found
  rcases found with new | ⟨-, old⟩
  · have same : record.path = path := by simpa using List.find?_some new
    rw [← same]
    exact members record (List.mem_reverse.mp (List.mem_of_find?_eq_some new))
  · exact inside path record old

/-- The records of a batch take their places in a bucket. -/
theorem bucketed_setAll {bucket : Text} {shown : View} (bucketed : Bucketed blake3 view bucket shown)
    (inside : ∀ path record, view path = some record → path ∈ known)
    (injective : Set.InjOn blake3.hash known) (members : ∀ record ∈ metas, record.path ∈ known) :
    Bucketed blake3 (view.setAll metas) bucket fun pathHash =>
      (if fileMetaBucketFromHash pathHash = bucket then latest blake3 metas pathHash else none).or
        (shown pathHash) := by
  intro pathHash record
  rw [Option.or_eq_some_iff, bucketed pathHash record]
  have reads : ∀ path ∈ known, latest blake3 metas (blake3.hash path) =
      metas.reverse.find? fun record => record.path = path :=
    fun path member => latest_of_mem_known injective members member
  constructor
  · rintro (new | ⟨none, belongs, same, kept⟩)
    · split at new
      next belongs =>
        obtain ⟨listed, same⟩ := of_latest new
        rw [← same, reads _ (members record listed)] at new
        exact ⟨belongs, same, by rw [View.setAll, new, Option.some_or]⟩
      · cases new
    · rw [if_pos belongs, ← same, reads _ (inside _ _ kept)] at none
      exact ⟨belongs, same, by rw [View.setAll, none, Option.none_or, kept]⟩
  · rintro ⟨belongs, same, kept⟩
    rw [if_pos belongs, ← same, reads _ (setAll_inside inside members _ _ kept)]
    rw [View.setAll, Option.or_eq_some_iff] at kept
    rcases kept with new | ⟨none, old⟩
    · exact Or.inl new
    · exact Or.inr ⟨none, by rw [same]; exact belongs, rfl, old⟩

theorem bucketed_remove {bucket gone : Text} {shown : View} (bucketed : Bucketed blake3 view bucket shown)
    (inside : ∀ path record, view path = some record → path ∈ known)
    (injective : Set.InjOn blake3.hash known) (member : gone ∈ known) :
    Bucketed blake3 (view.remove gone) bucket fun pathHash =>
      if pathHash = blake3.hash gone then none else shown pathHash := by
  intro pathHash record
  beta_reduce
  constructor
  · intro found
    split at found
    · cases found
    next differs =>
      obtain ⟨belongs, same, kept⟩ := (bucketed pathHash record).mp found
      refine ⟨belongs, same, ?_⟩
      rw [View.remove, if_neg, kept]
      intro equal
      rw [← same, equal] at differs
      exact differs rfl
  · rintro ⟨belongs, same, kept⟩
    simp only [View.remove] at kept
    split at kept
    · cases kept
    next differs =>
      rw [if_neg, (bucketed pathHash record).mpr ⟨belongs, same, kept⟩]
      intro equal
      rw [← same] at equal
      exact differs (injective (inside _ _ kept) member equal)

/-- A bucket that the migration makes. -/
theorem bucketed_index {index : Items} (bucket : Text) (looked : ∀ path, index.lookup path = view path)
    (inside : ∀ path record, view path = some record → path ∈ known)
    (keyed : ∀ path record, view path = some record → record.path = path)
    (injective : Set.InjOn blake3.hash known) :
    Bucketed blake3 view bucket fun pathHash =>
      if fileMetaBucketFromHash pathHash = bucket then latest blake3 index.values pathHash else none := by
  have listed : ∀ record, record ∈ index.values ↔ view record.path = some record := by
    intro record
    rw [Items.mem_values]
    constructor
    · rintro ⟨name, found⟩
      rw [looked] at found
      rwa [keyed name record found]
    · intro kept
      exact ⟨record.path, by rw [looked]; exact kept⟩
  intro pathHash record
  beta_reduce
  constructor
  · intro found
    split at found
    next belongs =>
      obtain ⟨present, same⟩ := of_latest found
      exact ⟨belongs, same, (listed record).mp present⟩
    · cases found
  · rintro ⟨belongs, same, kept⟩
    simp only [belongs, if_true]
    have covered : ∃ other, latest blake3 index.values pathHash = some other := by
      rw [← Option.isSome_iff_exists, latest, List.find?_isSome]
      exact ⟨record, List.mem_reverse.mpr ((listed record).mpr kept), by simpa using same⟩
    obtain ⟨other, found⟩ := covered
    obtain ⟨present, equal⟩ := of_latest found
    have shown := (listed other).mp present
    have paths : other.path = record.path :=
      injective (inside _ _ shown) (inside _ _ kept) (equal.trans same.symm)
    rw [paths, kept, Option.some.injEq] at shown
    rw [found, shown]

namespace SyncMetadataStore

theorem documents_putBatch (engine : StateEngine σ) (db : σ) {files : List (Text × Json)} (distinct : (files.map Prod.fst).Nodup) :
    ∃ after, storeJsonValuesBatch engine files (quiet db) = (.ok (), quiet after) ∧
      ∀ slot, documents engine after slot = (files.lookup slot.path).or (documents engine db slot) := by
  by_cases empty : files = []
  · subst empty
    exact ⟨db, rfl, fun slot => rfl⟩
  · refine ⟨engine.put files db, by simp [storeJsonValuesBatch, empty], ?_⟩
    intro slot
    exact engine.file_put files db slot.path distinct

theorem documents_mergeBatch (engine : StateEngine σ) (db : σ) {patches : List (Text × Json)} (distinct : (patches.map Prod.fst).Nodup) :
    ∃ after, mergeJsonFilesBatch engine patches (quiet db) = (.ok (), quiet after) ∧
      ∀ slot, documents engine after slot = match patches.lookup slot.path with
        | none => documents engine db slot
        | some patch => some (((documents engine db slot).getD (.object [])).merge 2 patch) := by
  by_cases empty : patches = []
  · subst empty
    exact ⟨db, rfl, fun slot => rfl⟩
  · refine ⟨engine.patch patches db, by simp [mergeJsonFilesBatch, empty], ?_⟩
    intro slot
    exact engine.file_patch patches db slot.path distinct

/-- The documents that the migration writes. -/
def newFiles (blake3 : PathHash) (id : RelationshipId) (index : Items) : List (Text × Json) :=
  migratedFiles blake3 id index ++ [((Slot.v2 id manifestName).path, manifestJson)]

theorem bucket_of_indexBuckets {index : Items} {bucket : Text} {items : Items}
    (found : (indexBuckets blake3 index).lookup bucket = some items) : bucket ≠ text "manifest" ∧ '/' ∉ bucket := by
  obtain ⟨record, -, rfl⟩ := exists_of_lookup_grouped found
  exact bucket_of_hash blake3 record.path

theorem mem_migratedFiles {index : Items} {entry : Text × Json}
    (inside : entry ∈ migratedFiles blake3 id index) :
    ∃ bucket, bucket ≠ text "manifest" ∧ '/' ∉ bucket ∧
      entry.1 = (fileMetaBucketKeyForBucket id bucket).path := by
  obtain ⟨group, listed, rfl⟩ := List.mem_map.mp inside
  obtain ⟨other, flat⟩ := bucket_of_indexBuckets
    (List.mem_dlookup (indexBuckets blake3 index).nodupKeys listed)
  exact ⟨group.1, other, flat, rfl⟩

theorem nodup_newFiles (blake3 : PathHash) (id : RelationshipId) (index : Items) : ((newFiles blake3 id index).map Prod.fst).Nodup := by
  have buckets : ((migratedFiles blake3 id index).map Prod.fst) =
      (indexBuckets blake3 index).keys.map fun bucket => (fileMetaBucketKeyForBucket id bucket).path := by
    simp only [migratedFiles, List.map_map, AList.keys, List.keys]
    rfl
  rw [newFiles, List.map_append, List.nodup_append]
  refine ⟨?_, List.nodup_singleton _, ?_⟩
  · rw [buckets]
    exact (indexBuckets blake3 index).keys_nodup.map (bucketKey_injective id)
  · intro path inside other member same
    obtain ⟨entry, listed, rfl⟩ := List.mem_map.mp inside
    obtain ⟨bucket, different, -, named⟩ := mem_migratedFiles listed
    have manifest : other = (Slot.v2 id manifestName).path := by simpa using member
    have slots : fileMetaBucketKeyForBucket id bucket = Slot.v2 id manifestName :=
      Slot.path_injective (by rw [← named, ← manifest]; exact same)
    simp only [fileMetaBucketKeyForBucket, Slot.v2.injEq, true_and] at slots
    exact bucketName_ne_manifest different slots

theorem lookup_newFiles (index : Items) (slot : Slot) :
    (newFiles blake3 id index).lookup slot.path =
      if slot = .v2 id manifestName then some manifestJson
      else (migratedFiles blake3 id index).lookup slot.path := by
  rw [newFiles, List.lookup_append]
  split
  next same =>
    subst same
    have none : (migratedFiles blake3 id index).lookup (Slot.v2 id manifestName).path = none := by
      apply lookup_eq_none
      intro entry inside equal
      obtain ⟨bucket, different, -, named⟩ := mem_migratedFiles inside
      have slots : fileMetaBucketKeyForBucket id bucket = Slot.v2 id manifestName :=
        Slot.path_injective (by rw [← named]; exact equal)
      simp only [fileMetaBucketKeyForBucket, Slot.v2.injEq, true_and] at slots
      exact bucketName_ne_manifest different slots
    rw [none]
    simp
  next other =>
    have missing : [((Slot.v2 id manifestName).path, manifestJson)].lookup slot.path = none := by
      apply lookup_eq_none
      intro entry inside equal
      rw [List.mem_singleton.mp inside] at equal
      exact other (Slot.path_injective equal).symm
    rw [missing, Option.or_none]

theorem lookup_newFiles_other {index : Items} {slot : Slot} (other : slot ≠ .v2 id manifestName)
    (outside : ∀ bucket, bucket ≠ text "manifest" → '/' ∉ bucket →
      slot ≠ fileMetaBucketKeyForBucket id bucket) : (newFiles blake3 id index).lookup slot.path = none := by
  rw [lookup_newFiles, if_neg other]
  apply lookup_eq_none
  intro entry inside equal
  obtain ⟨bucket, different, flat, named⟩ := mem_migratedFiles inside
  exact outside bucket different flat (Slot.path_injective (equal.symm.trans named))

theorem lookup_newFiles_bucket (index : Items) {bucket : Text} (different : bucket ≠ text "manifest") :
    (newFiles blake3 id index).lookup (Slot.v2 id (bucketName bucket)).path =
      ((indexBuckets blake3 index).lookup bucket).map fun items => FileMetaBucket.json ⟨1, items⟩ := by
  have other : Slot.v2 id (bucketName bucket) ≠ .v2 id manifestName := by
    intro same
    simp only [Slot.v2.injEq, true_and] at same
    exact bucketName_ne_manifest different same
  rw [lookup_newFiles, if_neg other]
  exact lookup_map_entries (bucketKey_injective id) (fun items => FileMetaBucket.json ⟨1, items⟩) _ bucket

theorem bucketName_ne_keep (bucket : Text) : bucketName bucket ≠ text ".keep" := by
  intro same
  have json : text ".json" <:+ text ".keep" := ⟨bucket, same⟩
  revert json
  decide

theorem bucketName_flat {bucket : Text} (flat : '/' ∉ bucket) : bucketName bucket ≠ [] ∧ '/' ∉ bucketName bucket := by
  constructor
  · intro empty
    have tail := (List.append_eq_nil_iff.mp empty).2
    revert tail
    decide
  · rw [bucketName, List.mem_append, not_or]
    exact ⟨flat, by decide⟩

/-- The records are put into buckets once, and stay what they are. -/
theorem ensureV2Storage_quiet (denotes : Denotes blake3 known (documents engine db) id view)
    (injective : Set.InjOn blake3.hash known) :
    ∃ after, ensureV2Storage engine blake3 id (quiet db) = (.ok (), quiet after) ∧ Local engine id db after ∧
      Denotes blake3 known (documents engine after) id view ∧ V2 blake3 (documents engine after) id view := by
  have manifest := hasV2Manifest_quiet engine db id
  rcases denotes.generation with legacy | v2
  · have missing : documents engine db (.v2 id manifestName) = none := legacy.fresh _ (by decide)
    rw [missing] at manifest
    obtain ⟨index, loaded, looked⟩ := loadLegacyFileMetaIndex_quiet denotes injective legacy
    obtain ⟨after, stored, changed⟩ := documents_putBatch engine db (nodup_newFiles blake3 id index)
    have files : (if index.entries = [] then [] else migratedFiles blake3 id index) =
        migratedFiles blake3 id index := by
      split
      next empty =>
        have values : index.values = [] := by simp [Items.values, empty]
        simp [migratedFiles, indexBuckets, values, grouped]
      · rfl
    have ran : ensureV2Storage engine blake3 id (quiet db) = (.ok (), quiet after) := by
      simp only [ensureV2Storage, Proc.bind_apply, manifest, Option.isSome_none, Bool.false_eq_true, if_false,
        loaded, files]
      exact stored
    have kept : ∀ slot, slot ≠ .v2 id manifestName → (∀ bucket, bucket ≠ text "manifest" → '/' ∉ bucket →
        slot ≠ fileMetaBucketKeyForBucket id bucket) → documents engine after slot = documents engine db slot := by
      intro slot other outside
      rw [changed, lookup_newFiles_other other outside, Option.none_or]
    have migrated : V2 blake3 (documents engine after) id view := by
      constructor
      · rw [changed, lookup_newFiles, if_pos rfl]
        rfl
      · intro bucket different
        refine ⟨_, ?_, bucketed_index bucket looked denotes.inside denotes.keyed injective⟩
        rw [changed, lookup_newFiles_bucket index different, legacy.fresh _ (bucketName_ne_keep bucket),
          Option.or_none]
        have shown := lookup_indexBuckets blake3 index bucket
        cases found : (indexBuckets blake3 index).lookup bucket with
        | none =>
            rw [found] at shown
            exact .absent fun pathHash => (shown pathHash).symm
        | some items =>
            rw [found] at shown
            exact (Represents.of_bucket items).congr shown
    refine ⟨after, ran, ?_, ⟨denotes.keyed, denotes.inside, ?_, ?_, Or.inr migrated⟩, migrated⟩
    · intro slot foreign
      apply kept
      · rintro rfl
        exact foreign rfl
      · rintro bucket - - rfl
        exact foreign rfl
    · intro name
      rw [kept (.legacy id name) (by simp) (by simp [fileMetaBucketKeyForBucket])]
      exact denotes.legacyNames name
    · intro name stored
      by_cases manifest : name = manifestName
      · rw [manifest]
        decide
      · by_cases bucket : ∃ bucket, '/' ∉ bucket ∧ name = bucketName bucket
        · obtain ⟨bucket, flat, rfl⟩ := bucket
          exact bucketName_flat flat
        · apply denotes.v2Names name
          rw [← kept (.v2 id name)]
          · exact stored
          · simpa using manifest
          · intro other _ flat same
            simp only [fileMetaBucketKeyForBucket, Slot.v2.injEq, true_and] at same
            exact bucket ⟨other, flat, same⟩
  · rw [v2.manifest] at manifest
    refine ⟨db, ?_, fun slot _ => rfl, denotes, v2⟩
    simp only [ensureV2Storage, Proc.bind_apply, manifest, if_true, Proc.pure_apply]

theorem nodup_patches (blake3 : PathHash) (id : RelationshipId) (metas : List FileSyncMeta) :
    (((bucketItems blake3 id metas).entries.map fun entry =>
    (entry.1, bucketPatch entry.2)).map Prod.fst).Nodup := by
  rw [List.map_map]
  exact (bucketItems blake3 id metas).keys_nodup

theorem lookup_patches (path : Text) : ((bucketItems blake3 id metas).entries.map fun entry =>
    (entry.1, bucketPatch entry.2)).lookup path = ((bucketItems blake3 id metas).lookup path).map bucketPatch :=
  lookup_map_entries Function.injective_id bucketPatch _ path

theorem lookup_bucketItems_other {slot : Slot} (outside : ∀ path,
    slot ≠ fileMetaBucketKey id (blake3.hash path)) : (bucketItems blake3 id metas).lookup slot.path = none := by
  cases found : (bucketItems blake3 id metas).lookup slot.path with
  | none => rfl
  | some fields =>
      obtain ⟨record, -, same⟩ := exists_of_lookup_grouped found
      exact absurd (Slot.path_injective same).symm (outside record.path)

/-- A batch writes its records, the last of each path. -/
theorem setFileMetasBatch_quiet (denotes : Denotes blake3 known (documents engine db) id view)
    (injective : Set.InjOn blake3.hash known) (members : ∀ record ∈ metas, record.path ∈ known) :
    ∃ after, setFileMetasBatch engine blake3 id metas (quiet db) = (.ok (), quiet after) ∧
      Local engine id db after ∧ Denotes blake3 known (documents engine after) id (view.setAll metas) := by
  by_cases empty : metas = []
  · subst empty
    exact ⟨db, rfl, fun slot _ => rfl, denotes⟩
  · obtain ⟨middle, ensured, localized, kept, v2⟩ := ensureV2Storage_quiet denotes injective
    obtain ⟨after, merged, changed⟩ := documents_mergeBatch engine middle (nodup_patches blake3 id metas)
    simp only [lookup_patches] at changed
    have ran : setFileMetasBatch engine blake3 id metas (quiet db) = (.ok (), quiet after) := by
      simp only [setFileMetasBatch, empty, if_false, Proc.bind_apply, ensured]
      exact merged
    have same : ∀ slot, (∀ path, slot ≠ fileMetaBucketKey id (blake3.hash path)) →
        documents engine after slot = documents engine middle slot := by
      intro slot outside
      rw [changed, lookup_bucketItems_other outside]
      rfl
    have manifest : documents engine after (.v2 id manifestName) =
        documents engine middle (.v2 id manifestName) := by
      apply same
      intro path equal
      simp only [fileMetaBucketKey, fileMetaBucketKeyForBucket, Slot.v2.injEq, true_and] at equal
      exact bucketName_ne_manifest (bucket_of_hash blake3 path).1 equal.symm
    have buckets : V2 blake3 (documents engine after) id (view.setAll metas) := by
      refine ⟨by rw [manifest]; exact v2.manifest, ?_⟩
      intro bucket different
      obtain ⟨shown, represents, bucketed⟩ := v2.buckets bucket different
      refine ⟨_, ?_, bucketed_setAll bucketed denotes.inside injective members⟩
      have fields := dlookup_bucketItems blake3 id metas bucket
      have distinct := nodupKeys_bucketItems blake3 id metas bucket
      rw [changed]
      simp only [fileMetaBucketKeyForBucket] at fields distinct
      cases found : (bucketItems blake3 id metas).lookup (Slot.v2 id (bucketName bucket)).path with
      | none =>
          rw [found] at fields
          apply represents.congr
          intro pathHash
          have none := Option.map_eq_none_iff.mp (fields pathHash).symm
          rw [none, Option.none_or]
      | some items =>
          rw [found] at fields distinct
          exact represents.set distinct fields
    refine ⟨after, ran, ?_, setAll_keyed denotes.keyed, setAll_inside denotes.inside members, ?_, ?_,
      Or.inr buckets⟩
    · intro slot foreign
      rw [same slot (by rintro path rfl; exact foreign rfl), localized slot foreign]
    · intro name
      rw [same (.legacy id name) (by simp [fileMetaBucketKey, fileMetaBucketKeyForBucket])]
      exact kept.legacyNames name
    · intro name stored
      by_cases bucket : ∃ path, name = bucketName (fileMetaBucketFromHash (blake3.hash path))
      · obtain ⟨path, rfl⟩ := bucket
        exact bucketName_flat (bucket_of_hash blake3 path).2
      · apply kept.v2Names name
        rw [← same (.v2 id name)]
        · exact stored
        · intro path equal
          simp only [fileMetaBucketKey, fileMetaBucketKeyForBucket, Slot.v2.injEq, true_and] at equal
          exact bucket ⟨path, equal⟩

end SyncMetadataStore

end AeordbSync

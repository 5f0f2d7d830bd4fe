import Mathlib.Data.Set.Function
import AeordbSync.State.Codec

namespace AeordbSync
open Characters Effect StateStore SyncMetadataStore

abbrev View := Text → Option FileSyncMeta

def legacyName (blake3 : PathHash) (path : Text) : Text := blake3.hash path ++ text ".json"

/-- What a bucket shows: the records whose hashes belong to it, by their hashes. -/
def Bucketed (blake3 : PathHash) (view : View) (bucket : Text) (shown : View) : Prop :=
  ∀ pathHash record, shown pathHash = some record ↔
    fileMetaBucketFromHash pathHash = bucket ∧ blake3.hash record.path = pathHash ∧
      view record.path = some record

/-- Before the migration. The index decides once it is there, and until then the single records do. -/
structure Legacy (blake3 : PathHash) (docs : Slot → Option Json) (id : RelationshipId) (view : View) :
    Prop where
  fresh : ∀ name, name ≠ text ".keep" → docs (.v2 id name) = none
  files : ∀ name json, name ≠ text ".keep" → docs (.legacy id name) = some json →
    ∃ record, view record.path = some record ∧ name = legacyName blake3 record.path ∧
      FileSyncMeta.ofJson json = some record
  index : (docs (.index id) = none ∧ ∀ path record, view path = some record →
      (docs (.legacy id (legacyName blake3 path))).isSome = true) ∨
    ∃ json index, docs (.index id) = some json ∧ Items.ofJson json = some index ∧
      ∀ path, index.lookup path = view path

/-- After the migration. The buckets alone decide. -/
structure V2 (blake3 : PathHash) (docs : Slot → Option Json) (id : RelationshipId) (view : View) :
    Prop where
  manifest : (docs (.v2 id manifestName)).isSome = true
  buckets : ∀ bucket, bucket ≠ text "manifest" →
    ∃ shown, Represents (docs (.v2 id (bucketName bucket))) shown ∧ Bucketed blake3 view bucket shown

/-- The documents of a relationship hold a map from paths to records. -/
structure Denotes (blake3 : PathHash) (known : Set Text) (docs : Slot → Option Json) (id : RelationshipId)
    (view : View) : Prop where
  keyed : ∀ path record, view path = some record → record.path = path
  inside : ∀ path record, view path = some record → path ∈ known
  legacyNames : ∀ name, (docs (.legacy id name)).isSome = true → name ≠ [] ∧ '/' ∉ name
  v2Names : ∀ name, (docs (.v2 id name)).isSome = true → name ≠ [] ∧ '/' ∉ name
  generation : Legacy blake3 docs id view ∨ V2 blake3 docs id view

variable {blake3 : PathHash} {known : Set Text} {docs after : Slot → Option Json} {id : RelationshipId}
  {view : View}

/-- Only the documents of the relationship count. -/
theorem Denotes.congr (denotes : Denotes blake3 known docs id view)
    (same : ∀ slot, slot.owner = id → after slot = docs slot) : Denotes blake3 known after id view := by
  have v2 : ∀ name, after (.v2 id name) = docs (.v2 id name) := fun name => same (.v2 id name) rfl
  have legacy : ∀ name, after (.legacy id name) = docs (.legacy id name) := fun name => same (.legacy id name) rfl
  have index : after (.index id) = docs (.index id) := same (.index id) rfl
  refine ⟨denotes.keyed, denotes.inside, ?_, ?_, ?_⟩
  · intro name
    rw [legacy]
    exact denotes.legacyNames name
  · intro name
    rw [v2]
    exact denotes.v2Names name
  · rcases denotes.generation with old | new
    · left
      refine ⟨?_, ?_, ?_⟩
      · intro name
        rw [v2]
        exact old.fresh name
      · intro name
        rw [legacy]
        exact old.files name
      · simp only [index, legacy]
        exact old.index
    · right
      refine ⟨?_, ?_⟩
      · rw [v2]
        exact new.manifest
      · intro bucket
        rw [v2]
        exact new.buckets bucket

/-- Among the known paths a hash tells its path. -/
theorem Denotes.path_of_hash (denotes : Denotes blake3 known docs id view)
    (injective : Set.InjOn blake3.hash known) {path : Text} (member : path ∈ known) {record : FileSyncMeta}
    (found : view record.path = some record) (same : blake3.hash record.path = blake3.hash path) :
    record.path = path :=
  injective (denotes.inside _ _ found) member same

theorem legacyName_inj {path other : Text} (same : legacyName blake3 path = legacyName blake3 other) :
    blake3.hash path = blake3.hash other := List.append_cancel_right same

theorem legacyName_ne_keep (path : Text) : legacyName blake3 path ≠ text ".keep" := by
  intro same
  have json : text ".json" <:+ text ".keep" := ⟨blake3.hash path, same⟩
  revert json
  decide

theorem bucketName_inj {bucket other : Text} (same : bucketName bucket = bucketName other) : bucket = other :=
  List.append_cancel_right same

theorem bucketName_ne_manifest {bucket : Text} (differs : bucket ≠ text "manifest") :
    bucketName bucket ≠ manifestName := by
  intro same
  have named : bucketName bucket = bucketName (text "manifest") := same
  exact differs (bucketName_inj named)

/-- A digest has neither a separator nor the letters of the manifest. -/
theorem bucket_of_hash (blake3 : PathHash) (path : Text) :
    fileMetaBucketFromHash (blake3.hash path) ≠ text "manifest" ∧
      '/' ∉ fileMetaBucketFromHash (blake3.hash path) := by
  have hex : ∀ c ∈ fileMetaBucketFromHash (blake3.hash path), c ∈ text "0123456789abcdef" :=
    fun c inside => blake3.hex path c (List.mem_of_mem_take inside)
  constructor
  · intro same
    have first := hex 'm' (by rw [same]; decide)
    revert first
    decide
  · intro slash
    have first := hex '/' slash
    revert first
    decide

end AeordbSync

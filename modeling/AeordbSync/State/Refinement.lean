import AeordbSync.Library.Simulation
import AeordbSync.State.Memory
import AeordbSync.State.Removing

namespace AeordbSync
open Characters Effect StateStore SyncMetadataStore

inductive MetaCall where
  | setFileMeta (id : RelationshipId) (record : FileSyncMeta)
  | setFileMetasBatch (id : RelationshipId) (metas : List FileSyncMeta)
  | deleteFileMeta (id : RelationshipId) (remotePath : Text)
  | clearRelationshipState (id : RelationshipId)
  | getFileMeta (id : RelationshipId) (remotePath : Text)
  | listFileMetas (id : RelationshipId)

inductive MetaAnswer where
  | done
  | found (record : Option FileSyncMeta)
  | listed (records : List FileSyncMeta)

namespace MetaCall

def owner : MetaCall → RelationshipId
  | .setFileMeta id _ => id
  | .setFileMetasBatch id _ => id
  | .deleteFileMeta id _ => id
  | .clearRelationshipState id => id
  | .getFileMeta id _ => id
  | .listFileMetas id => id

def paths : MetaCall → List Text
  | .setFileMeta _ record => [record.path]
  | .setFileMetasBatch _ metas => metas.map FileSyncMeta.path
  | .deleteFileMeta _ remotePath => [remotePath]
  | .clearRelationshipState _ => []
  | .getFileMeta _ remotePath => [remotePath]
  | .listFileMetas _ => []

/-- The call on the state database. -/
def run {σ : Type} (engine : StateEngine σ) (blake3 : PathHash) (s : StateStore σ) :
    MetaCall → Except ClientError MetaAnswer × StateStore σ
  | .setFileMeta id record => (do SyncMetadataStore.setFileMeta engine blake3 id record; pure .done : Call σ _) s
  | .setFileMetasBatch id metas =>
      (do SyncMetadataStore.setFileMetasBatch engine blake3 id metas; pure .done : Call σ _) s
  | .deleteFileMeta id remotePath =>
      (do SyncMetadataStore.deleteFileMeta engine blake3 id remotePath; pure .done : Call σ _) s
  | .clearRelationshipState id =>
      (do SyncMetadataStore.clearRelationshipState engine id; pure .done : Call σ _) s
  | .getFileMeta id remotePath =>
      (do let record ← SyncMetadataStore.getFileMeta engine blake3 id remotePath; pure (.found record) : Call σ _) s
  | .listFileMetas id =>
      (do let records ← SyncMetadataStore.listFileMetas engine id; pure (.listed records) : Call σ _) s

end MetaCall

/-- One map from paths to records for each relationship. -/
abbrev Tables := RelationshipId → Records

namespace Tables

def empty : Tables := fun _ => Records.empty

/-- The call on the maps. -/
def step (tables : Tables) : MetaCall → MetaAnswer × Tables
  | .setFileMeta id record => (.done, Function.update tables id ((tables id).set record))
  | .setFileMetasBatch id metas => (.done, Function.update tables id ((tables id).setAll metas))
  | .deleteFileMeta id remotePath => (.done, Function.update tables id ((tables id).remove remotePath))
  | .clearRelationshipState id => (.done, Function.update tables id Records.empty)
  | .getFileMeta id remotePath => (.found ((tables id).find remotePath), tables)
  | .listFileMetas id => (.listed (tables id).list, tables)

end Tables

/-- A listing may come in any order. -/
inductive Agrees : Except ClientError MetaAnswer → MetaAnswer → Prop
  | same (answer : MetaAnswer) : Agrees (.ok answer) answer
  | listed {records expected : List FileSyncMeta} (order : records.Perm expected) :
      Agrees (.ok (.listed records)) (.listed expected)

/-- The records of a relationship that has not been written to since the index or the single records
were the only form. -/
inductive Initially (blake3 : PathHash) (docs : Slot → Option Json) (id : RelationshipId) : Records → Prop
  | empty (fresh : ∀ name, name ≠ text ".keep" → docs (.v2 id name) = none)
      (noFiles : ∀ name, name ≠ text ".keep" → docs (.legacy id name) = none)
      (noIndex : docs (.index id) = none) : Initially blake3 docs id Records.empty
  | indexOnly {records : Records} {json : Json} {index : Items}
      (fresh : ∀ name, name ≠ text ".keep" → docs (.v2 id name) = none)
      (noFiles : ∀ name, name ≠ text ".keep" → docs (.legacy id name) = none)
      (stored : docs (.index id) = some json) (read : Items.ofJson json = some index)
      (held : ∀ path, index.lookup path = records.find path) : Initially blake3 docs id records
  | filesOnly {records : Records} (fresh : ∀ name, name ≠ text ".keep" → docs (.v2 id name) = none)
      (noIndex : docs (.index id) = none)
      (files : ∀ name json, name ≠ text ".keep" → docs (.legacy id name) = some json →
        ∃ record, records.find record.path = some record ∧ name = legacyName blake3 record.path ∧
          FileSyncMeta.ofJson json = some record)
      (covered : ∀ path record, records.find path = some record →
        (docs (.legacy id (legacyName blake3 path))).isSome = true) : Initially blake3 docs id records

/-- The paths of the first records and of the calls. -/
def pathsInUse (tables : Tables) (calls : List MetaCall) : Set Text :=
  {path | (∃ id, path ∈ (tables id).paths) ∨ ∃ call ∈ calls, path ∈ call.paths}

section

variable {σ : Type} {engine : StateEngine σ} {blake3 : PathHash} {known : Set Text} {db after : σ}
  {id : RelationshipId} {tables : Tables}

theorem legacyName_named (blake3 : PathHash) (path : Text) :
    legacyName blake3 path ≠ [] ∧ '/' ∉ legacyName blake3 path := by
  have free : '/' ∉ blake3.hash path := by
    intro slash
    have digit := blake3.hex path '/' slash
    revert digit
    decide
  exact bucketName_flat free

theorem Initially.denotes {docs : Slot → Option Json} {records : Records} (begins : Initially blake3 docs id records)
    (inside : ∀ path, path ∈ records.paths → path ∈ known) : Denotes blake3 known docs id records.find := by
  have keyed : ∀ path record, records.find path = some record → record.path = path :=
    fun path record found => Records.path_of_find found
  have member : ∀ path record, records.find path = some record → path ∈ known :=
    fun path record found => inside path (Records.mem_paths.mpr ⟨record, found⟩)
  have unnamed : ∀ slot : Text → Slot, (∀ name, name ≠ text ".keep" → docs (slot name) = none) →
      ∀ name, (docs (slot name)).isSome = true → name ≠ [] ∧ '/' ∉ name := by
    intro slot none name stored
    by_cases keep : name = text ".keep"
    · rw [keep]
      decide
    · rw [none name keep] at stored
      cases stored
  cases begins with
  | empty fresh noFiles noIndex =>
      refine ⟨keyed, member, unnamed _ noFiles, unnamed _ fresh, Or.inl ⟨fresh, ?_, Or.inl ⟨noIndex, by simp⟩⟩⟩
      intro name json other stored
      rw [noFiles name other] at stored
      cases stored
  | @indexOnly _ json index fresh noFiles stored read held =>
      refine ⟨keyed, member, unnamed _ noFiles, unnamed _ fresh,
        Or.inl ⟨fresh, ?_, Or.inr ⟨json, index, stored, read, held⟩⟩⟩
      intro name json other stored
      rw [noFiles name other] at stored
      cases stored
  | filesOnly fresh noIndex files covered =>
      refine ⟨keyed, member, ?_, unnamed _ fresh, Or.inl ⟨fresh, files, Or.inl ⟨noIndex, covered⟩⟩⟩
      intro name stored
      by_cases keep : name = text ".keep"
      · rw [keep]
        decide
      · obtain ⟨json, content⟩ := Option.isSome_iff_exists.mp stored
        obtain ⟨record, -, rfl, -⟩ := files name json keep content
        exact legacyName_named blake3 record.path

theorem Records.nodup_list (records : Records) : records.list.Nodup := by
  apply nodup_filterMap records.paths_nodup
  intro first _ second _ record found other
  rw [← Records.path_of_find found, Records.path_of_find other]

/-- The state database holds the maps, and no fault is due. -/
def HoldsTables (engine : StateEngine σ) (blake3 : PathHash) (known : Set Text) (s : StateStore σ)
    (tables : Tables) : Prop :=
  ∃ db, s = quiet db ∧ ∀ id, Denotes blake3 known (documents engine db) id (tables id).find

/-- A write to one relationship leaves the maps of the others. -/
theorem holdsTables_update (holds : ∀ id, Denotes blake3 known (documents engine db) id (tables id).find)
    (localized : Local engine id db after) {records : Records}
    (written : Denotes blake3 known (documents engine after) id records.find) :
    HoldsTables engine blake3 known (quiet after) (Function.update tables id records) := by
  refine ⟨after, rfl, ?_⟩
  intro other
  by_cases same : other = id
  · subst same
    rw [Function.update_self]
    exact written
  · rw [Function.update_of_ne same]
    apply (holds other).congr
    intro slot owned
    apply localized
    rw [owned]
    exact same

/-- One call on the state database does what it does on the maps, within its relationship. -/
theorem MetaCall.run_refines (injective : Set.InjOn blake3.hash known)
    (holds : ∀ id, Denotes blake3 known (documents engine db) id (tables id).find) (call : MetaCall)
    (members : ∀ path ∈ call.paths, path ∈ known) :
    Agrees (call.run engine blake3 (quiet db)).1 (tables.step call).1 ∧
      HoldsTables engine blake3 known (call.run engine blake3 (quiet db)).2 (tables.step call).2 ∧
      Local engine call.owner db (call.run engine blake3 (quiet db)).2.db := by
  cases call with
  | setFileMeta id record =>
      obtain ⟨after, ran, localized, denotes⟩ := setFileMetasBatch_quiet (holds id) injective
        (fun other inside => members other.path (by rw [List.mem_singleton.mp inside]; exact List.mem_cons_self) :
          ∀ other ∈ [record], other.path ∈ known)
      have view : View.setAll (tables id).find [record] = ((tables id).set record).find :=
        funext fun path => (Records.find_setAll (tables id) [record] path).symm
      rw [view] at denotes
      simp only [run, SyncMetadataStore.setFileMeta, Proc.bind_apply, ran, Proc.pure_apply]
      exact ⟨.same _, holdsTables_update holds localized denotes, localized⟩
  | setFileMetasBatch id metas =>
      obtain ⟨after, ran, localized, denotes⟩ := setFileMetasBatch_quiet (holds id) injective
        fun record inside => members record.path (List.mem_map_of_mem inside)
      have view : View.setAll (tables id).find metas = ((tables id).setAll metas).find :=
        funext fun path => (Records.find_setAll (tables id) metas path).symm
      rw [view] at denotes
      simp only [run, Proc.bind_apply, ran, Proc.pure_apply]
      exact ⟨.same _, holdsTables_update holds localized denotes, localized⟩
  | deleteFileMeta id remotePath =>
      obtain ⟨after, ran, localized, denotes⟩ := deleteFileMeta_quiet (holds id) injective
        (members remotePath List.mem_cons_self)
      have view : View.remove (tables id).find remotePath = ((tables id).remove remotePath).find :=
        funext fun path => (Records.find_remove (tables id) remotePath path).symm
      rw [view] at denotes
      simp only [run, Proc.bind_apply, ran, Proc.pure_apply]
      exact ⟨.same _, holdsTables_update holds localized denotes, localized⟩
  | clearRelationshipState id =>
      obtain ⟨after, ran, localized, denotes⟩ := clearRelationshipState_quiet (holds id)
      simp only [run, Proc.bind_apply, ran, Proc.pure_apply]
      exact ⟨.same _, holdsTables_update holds localized denotes, localized⟩
  | getFileMeta id remotePath =>
      have ran := getFileMeta_quiet (holds id) injective (members remotePath List.mem_cons_self)
      simp only [run, Proc.bind_apply, ran, Proc.pure_apply]
      exact ⟨.same _, ⟨db, rfl, holds⟩, fun _ _ => rfl⟩
  | listFileMetas id =>
      obtain ⟨records, ran, nodup, listed⟩ := listFileMetas_quiet (holds id) injective
      have order : records.Perm (tables id).list := by
        rw [List.perm_ext_iff_of_nodup nodup (Records.nodup_list _)]
        intro record
        rw [listed, Records.mem_list]
      simp only [run, Proc.bind_apply, ran, Proc.pure_apply]
      exact ⟨.listed order, ⟨db, rfl, holds⟩, fun _ _ => rfl⟩

/-- The calls answer as one map from paths to records for each relationship does, and leave the
documents of a relationship that they do not name. -/
theorem fileMetas_refineTables (engine : StateEngine σ) (blake3 : PathHash) (db : σ) (tables : Tables)
    (calls : List MetaCall) (begins : ∀ id, Initially blake3 (documents engine db) id (tables id))
    (collisionFree : Set.InjOn blake3.hash (pathsInUse tables calls)) :
    List.Forall₂ Agrees (Simulation.answers (MetaCall.run engine blake3) (quiet db) calls)
        (Simulation.answers Tables.step tables calls) ∧
      ∀ id, (∀ call ∈ calls, call.owner ≠ id) → ∀ slot : Slot, slot.owner = id →
        documents engine (Simulation.final (MetaCall.run engine blake3) (quiet db) calls).db slot =
          documents engine db slot := by
  have start : ∀ id, Denotes blake3 (pathsInUse tables calls) (documents engine db) id (tables id).find :=
    fun id => (begins id).denotes fun path inside => Or.inl ⟨id, inside⟩
  have members : ∀ call ∈ calls, ∀ path ∈ call.paths, path ∈ pathsInUse tables calls :=
    fun call inside path listed => Or.inr ⟨call, inside, listed⟩
  constructor
  · have simulates : Simulation.Simulates (MetaCall.run engine blake3) Tables.step
        (HoldsTables engine blake3 (pathsInUse tables calls)) Agrees
        fun call => ∀ path ∈ call.paths, path ∈ pathsInUse tables calls := by
      rintro s maps call ⟨db, rfl, holds⟩ fits
      obtain ⟨agrees, next, -⟩ := call.run_refines collisionFree holds fits
      exact ⟨agrees, next⟩
    exact simulates.answers ⟨db, rfl, start⟩ members
  · intro id others slot owned
    have simulates : Simulation.Simulates (MetaCall.run engine blake3) Tables.step
        (fun s maps => HoldsTables engine blake3 (pathsInUse tables calls) s maps ∧
          documents engine s.db slot = documents engine db slot) (fun _ _ => True)
        fun call => (∀ path ∈ call.paths, path ∈ pathsInUse tables calls) ∧ call.owner ≠ id := by
      rintro s maps call ⟨⟨now, rfl, holds⟩, kept⟩ ⟨fits, foreign⟩
      obtain ⟨-, next, localized⟩ := call.run_refines collisionFree holds fits
      refine ⟨trivial, next, ?_⟩
      rw [localized slot (by rw [owned]; exact foreign.symm)]
      exact kept
    exact (simulates.final ⟨⟨db, rfl, start⟩, rfl⟩ fun call inside => ⟨members call inside, others call inside⟩).2

end

namespace FileMetasSample

def relationship : RelationshipId := ⟨text "6f1c", RelationshipId.sample_named, RelationshipId.sample_flat⟩

def first : FileSyncMeta := ⟨text "/docs/a.md", text "9d2f", 12, 1700000000000, .synced, 1700000001000⟩

def second : FileSyncMeta := ⟨text "/docs/b.md", text "41aa", 7, 1700000002000, .synced, 1700000003000⟩

/-- The digests of the two paths. -/
def hash (path : Text) : Text :=
  if path = first.path then text "26acf84a172871c7659a31620b63e0536f67d4563383d8b4a089cca4f317acfd"
  else if path = second.path then text "23980db4a08a8992c47d25fe0bb4d9be310ad0a12022baafcab625d667464bb2"
  else text "af1349b9f5f9a1a6a0404dea36dcc9499bcb25c9adc112b7cc9a93cae41f3262"

def blake3 : PathHash where
  hash := hash
  hex := by
    intro path
    unfold hash
    have digits : ∀ digest : Text, digest.all ((text "0123456789abcdef").contains ·) = true →
        ∀ c ∈ digest, c ∈ text "0123456789abcdef" :=
      fun digest every c inside => List.contains_iff_mem.mp (List.all_eq_true.mp every c inside)
    split
    · exact digits _ rfl
    · split
      · exact digits _ rfl
      · exact digits _ rfl

/-- One single record is left from before the index. -/
def db : MemoryState :=
  MemoryState.engine.put [((Slot.legacy relationship (legacyName blake3 first.path)).path, first.json)] ∅

def tables : Tables := Function.update Tables.empty relationship (Records.empty.set first)

def calls : List MetaCall :=
  [.listFileMetas relationship, .setFileMeta relationship second, .getFileMeta relationship first.path,
    .deleteFileMeta relationship first.path, .listFileMetas relationship]

theorem documents_db : documents MemoryState.engine db =
    Function.update (fun _ => none) (Slot.legacy relationship (legacyName blake3 first.path)) (some first.json) :=
  MemoryState.engine.documents_put_one ∅ _ _

theorem initially (other : RelationshipId) :
    Initially blake3 (documents MemoryState.engine db) other (tables other) := by
  rw [documents_db]
  by_cases same : other = relationship
  · subst same
    rw [tables, Function.update_self]
    apply Initially.filesOnly
    · intro name _
      exact Function.update_of_ne (by simp) ..
    · exact Function.update_of_ne (by simp) ..
    · intro name json _ stored
      rw [Function.update_apply] at stored
      split at stored
      next place =>
        simp only [Slot.legacy.injEq, true_and] at place
        cases stored
        exact ⟨first, by rw [Records.find_set, if_pos rfl], place, first.ofJson_json⟩
      · cases stored
    · intro path record found
      rw [Records.find_set] at found
      split at found
      next equal =>
        rw [equal, Function.update_self]
        rfl
      · cases found
  · have absent : ∀ slot : Slot, slot.owner = other → Function.update (fun _ => none)
        (Slot.legacy relationship (legacyName blake3 first.path)) (some first.json) slot = none := by
      intro slot owned
      apply Function.update_of_ne
      rintro rfl
      exact same owned.symm
    rw [tables, Function.update_of_ne same]
    exact .empty (fun name _ => absent _ rfl) (fun name _ => absent _ rfl) (absent _ rfl)

theorem collisionFree : Set.InjOn blake3.hash (pathsInUse tables calls) := by
  have either : ∀ path ∈ pathsInUse tables calls, path = first.path ∨ path = second.path := by
    rintro path (⟨other, inside⟩ | ⟨call, inside, named⟩)
    · by_cases same : other = relationship
      · subst same
        rw [tables, Function.update_self] at inside
        rcases Records.mem_paths_set inside with empty | equal
        · cases empty
        · exact Or.inl equal
      · rw [tables, Function.update_of_ne same] at inside
        cases inside
    · simp only [calls, List.mem_cons, List.not_mem_nil, or_false] at inside
      rcases inside with rfl | rfl | rfl | rfl | rfl <;> simp_all [MetaCall.paths]
  have differ : blake3.hash first.path ≠ blake3.hash second.path := by decide
  intro path inside other member same
  rcases either path inside with rfl | rfl
  · rcases either other member with rfl | rfl
    · rfl
    · exact absurd same differ
  · rcases either other member with rfl | rfl
    · exact absurd same.symm differ
    · rfl

end FileMetasSample

theorem fileMetas_refineTables_sample :
    List.Forall₂ Agrees (Simulation.answers (MetaCall.run MemoryState.engine FileMetasSample.blake3)
        (quiet FileMetasSample.db) FileMetasSample.calls)
      [.listed [FileMetasSample.first], .done, .found (some FileMetasSample.first), .done,
        .listed [FileMetasSample.second]] :=
  (fileMetas_refineTables MemoryState.engine FileMetasSample.blake3 FileMetasSample.db FileMetasSample.tables
    FileMetasSample.calls FileMetasSample.initially FileMetasSample.collisionFree).1

end AeordbSync

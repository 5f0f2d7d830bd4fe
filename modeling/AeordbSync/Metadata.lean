import Mathlib.Data.List.AList
import AeordbSync.Paths

namespace AeordbSync
open Characters OsPath

inductive SyncStatus where
  | synced
  | pendingPush
  | pendingPull
  | error
  deriving DecidableEq

structure FileSyncMeta where
  path : Text
  contentHash : Text
  size : Nat
  modifiedAt : Int
  syncStatus : SyncStatus
  lastSyncedAt : Int
  deriving DecidableEq

structure SyncCheckpoint where
  relationshipId : Text
  remoteRootHash : Text
  lastSyncAt : Int
  deriving DecidableEq

structure SyncPathMigration where
  relationshipId : Text
  oldRemotePath : Text
  newRemotePath : Text
  oldLocalPath : Text
  newLocalPath : Text
  createdAt : Int
  deriving DecidableEq

def migrationOldRemotePathForEntry (entryPath : PathBuf) (migration : SyncPathMigration) :
    Option Text :=
  let oldLocalBase := ofText (osText migration.oldLocalPath)
  match stripPrefix entryPath oldLocalBase with
  | some relative => some (computeRemotePath relative migration.oldRemotePath)
  | none =>
      match stripPrefix entryPath (ofText (osText migration.newLocalPath)) with
      | none => none
      | some relativeToNew => match fileName oldLocalBase with
        | none => none
        | some oldLeaf => match relativeToNew with
          | .normal name :: relativeToOld =>
              if name = oldLeaf then some (computeRemotePath relativeToOld migration.oldRemotePath)
              else none
          | _ => none

/-- Each record is filed under its own path. -/
structure Records where
  map : AList (fun _ : Text => FileSyncMeta)
  keyed : ∀ path record, map.lookup path = some record → record.path = path

namespace Records

def empty : Records := ⟨∅, fun path record found => by cases found⟩

def find (records : Records) (path : Text) : Option FileSyncMeta := records.map.lookup path

def paths (records : Records) : List Text := records.map.keys

def list (records : Records) : List FileSyncMeta := records.paths.filterMap records.find

def set (records : Records) (record : FileSyncMeta) : Records where
  map := records.map.insert record.path record
  keyed := by
    intro path other found
    by_cases same : path = record.path
    · subst path
      rw [AList.lookup_insert, Option.some.injEq] at found
      rw [found]
    · rw [AList.lookup_insert_ne same] at found
      exact records.keyed path other found

def remove (records : Records) (path : Text) : Records where
  map := records.map.erase path
  keyed := by
    intro other record found
    by_cases same : other = path
    · subst other
      rw [AList.lookup_erase] at found
      cases found
    · rw [AList.lookup_erase_ne same] at found
      exact records.keyed other record found

/-- A later record of one path replaces an earlier one. -/
def setAll (records : Records) (metas : List FileSyncMeta) : Records := metas.foldl set records

@[simp] theorem find_empty (path : Text) : empty.find path = none := rfl

theorem find_set (records : Records) (record : FileSyncMeta) (path : Text) :
    (records.set record).find path = if path = record.path then some record else records.find path := by
  split
  next same =>
    subst path
    exact AList.lookup_insert _
  next other => exact AList.lookup_insert_ne other

theorem find_remove (records : Records) (gone path : Text) :
    (records.remove gone).find path = if path = gone then none else records.find path := by
  split
  next same =>
    subst path
    exact AList.lookup_erase ..
  next other => exact AList.lookup_erase_ne other

theorem path_of_find {records : Records} {path : Text} {record : FileSyncMeta}
    (found : records.find path = some record) : record.path = path :=
  records.keyed path record found

theorem mem_paths {records : Records} {path : Text} :
    path ∈ records.paths ↔ ∃ record, records.find path = some record := by
  rw [← Option.isSome_iff_exists, find, AList.lookup_isSome]
  exact Iff.rfl

theorem paths_nodup (records : Records) : records.paths.Nodup := records.map.keys_nodup

theorem mem_list {records : Records} {record : FileSyncMeta} :
    record ∈ records.list ↔ records.find record.path = some record := by
  rw [list, List.mem_filterMap]
  constructor
  · rintro ⟨path, -, found⟩
    rwa [path_of_find found]
  · intro found
    exact ⟨record.path, mem_paths.mpr ⟨record, found⟩, found⟩

theorem setAll_nil (records : Records) : records.setAll [] = records := rfl

theorem setAll_cons (records : Records) (record : FileSyncMeta) (rest : List FileSyncMeta) :
    records.setAll (record :: rest) = (records.set record).setAll rest := rfl

/-- Only the last record written for a path counts. -/
theorem find_setAll (records : Records) (metas : List FileSyncMeta) (path : Text) :
    (records.setAll metas).find path =
      ((metas.reverse.find? fun record => record.path = path).or (records.find path)) := by
  induction metas using List.reverseRecOn with
  | nil => rfl
  | append_singleton front last ih =>
      have step : records.setAll (front ++ [last]) = (records.setAll front).set last := by
        simp [setAll, List.foldl_append]
      rw [step, find_set, ih, List.reverse_append, List.reverse_singleton, List.singleton_append]
      by_cases same : path = last.path
      · simp [same]
      · simp [same, Ne.symm same]

theorem find_setAll_of_mem {records : Records} {metas : List FileSyncMeta} {path : Text}
    {record : FileSyncMeta} (found : (records.setAll metas).find path = some record) :
    record ∈ metas ∧ record.path = path ∨ records.find path = some record := by
  rw [find_setAll] at found
  cases latest : metas.reverse.find? fun record => record.path = path with
  | none => exact Or.inr (by simpa [latest] using found)
  | some last =>
      rw [latest, Option.some_or, Option.some.injEq] at found
      subst last
      have inside := List.mem_of_find?_eq_some latest
      have same := List.find?_some latest
      exact Or.inl ⟨List.mem_reverse.mp inside, by simpa using same⟩

theorem find_setAll_other {records : Records} {metas : List FileSyncMeta} {path : Text}
    (absent : ∀ record ∈ metas, record.path ≠ path) :
    (records.setAll metas).find path = records.find path := by
  have none : metas.reverse.find? (fun record => record.path = path) = none := by
    rw [List.find?_eq_none]
    intro record inside
    simpa using absent record (List.mem_reverse.mp inside)
  rw [find_setAll, none, Option.none_or]

theorem find_setAll_covered (records : Records) {metas : List FileSyncMeta} {path : Text}
    (covered : ∃ record ∈ metas, record.path = path) :
    ∃ record ∈ metas, record.path = path ∧ (records.setAll metas).find path = some record := by
  rw [find_setAll]
  cases latest : metas.reverse.find? fun record => record.path = path with
  | none =>
      obtain ⟨record, inside, same⟩ := covered
      rw [List.find?_eq_none] at latest
      exact absurd (by simpa using same) (latest record (List.mem_reverse.mpr inside))
  | some last =>
      have inside := List.mem_of_find?_eq_some latest
      have same := List.find?_some latest
      exact ⟨last, List.mem_reverse.mp inside, by simpa using same, rfl⟩

theorem mem_paths_setAll {records : Records} {metas : List FileSyncMeta} {path : Text}
    (inside : path ∈ (records.setAll metas).paths) :
    path ∈ records.paths ∨ ∃ record ∈ metas, record.path = path := by
  obtain ⟨record, found⟩ := mem_paths.mp inside
  rcases find_setAll_of_mem found with ⟨listed, same⟩ | old
  · exact Or.inr ⟨record, listed, same⟩
  · exact Or.inl (mem_paths.mpr ⟨record, old⟩)

theorem mem_paths_set {records : Records} {record : FileSyncMeta} {path : Text}
    (inside : path ∈ (records.set record).paths) : path ∈ records.paths ∨ path = record.path := by
  have either : path ∈ records.paths ∨ ∃ other ∈ [record], other.path = path := mem_paths_setAll inside
  rcases either with old | ⟨other, listed, same⟩
  · exact Or.inl old
  · rw [List.mem_singleton.mp listed] at same
    exact Or.inr same.symm

theorem mem_paths_remove {records : Records} {gone path : Text}
    (inside : path ∈ (records.remove gone).paths) : path ∈ records.paths ∧ path ≠ gone := by
  obtain ⟨record, found⟩ := mem_paths.mp inside
  rw [find_remove] at found
  split at found
  · cases found
  next other => exact ⟨mem_paths.mpr ⟨record, found⟩, other⟩

end Records

def coalesceFileMetas (metas : List FileSyncMeta) : List FileSyncMeta :=
  (Records.empty.setAll metas).list

/-- The part of the state database that belongs to one relationship. -/
structure MetadataStore where
  files : Records
  checkpoint : Option SyncCheckpoint
  migration : Option SyncPathMigration

theorem mem_coalesceFileMetas {metas : List FileSyncMeta} {record : FileSyncMeta}
    (inside : record ∈ coalesceFileMetas metas) : record ∈ metas := by
  have found := Records.mem_list.mp inside
  rcases Records.find_setAll_of_mem found with ⟨present, -⟩ | absent
  · exact present
  · cases absent

/-- Every path of the updates keeps exactly one of them. -/
theorem coalesceFileMetas_covers {metas : List FileSyncMeta} {record : FileSyncMeta}
    (inside : record ∈ metas) : ∃ other ∈ coalesceFileMetas metas, other.path = record.path := by
  cases found : (Records.empty.setAll metas).find record.path with
  | none =>
      rw [Records.find_setAll] at found
      have none := (Option.or_eq_none_iff.mp found).1
      rw [List.find?_eq_none] at none
      exact absurd (by simp) (none record (List.mem_reverse.mpr inside))
  | some other =>
      have same := Records.path_of_find found
      exact ⟨other, Records.mem_list.mpr (by rwa [same]), same⟩

end AeordbSync

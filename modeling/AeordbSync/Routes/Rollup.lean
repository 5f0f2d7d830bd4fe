import Mathlib.Order.Basic
import AeordbSync.Library.Greatest
import AeordbSync.Metadata

namespace AeordbSync
open Characters Greatest

namespace SyncStatus

/-- The name of a status in a listing. -/
def entryName : SyncStatus → Text
  | synced => text "synced"
  | pendingPush => text "pending_push"
  | pendingPull => text "pending_pull"
  | error => text "error"

/-- How much attention a status needs. -/
def severity : SyncStatus → Nat
  | synced => 0
  | pendingPull => 1
  | pendingPush => 2
  | error => 3

theorem severity_injective : Function.Injective severity := by
  intro first second same
  cases first <;> cases second <;> first | rfl | cases same

instance : LinearOrder SyncStatus := LinearOrder.lift' severity severity_injective

end SyncStatus

namespace Routes

/-- What has been seen of the records below a directory. -/
structure RollupFlags where
  sawAny : Bool
  anyError : Bool
  anyPush : Bool
  anyPull : Bool
  allSynced : Bool

namespace RollupFlags

def initial : RollupFlags := ⟨false, false, false, false, true⟩

def saw (flags : RollupFlags) : SyncStatus → RollupFlags
  | .synced => { flags with sawAny := true }
  | .pendingPush => { flags with sawAny := true, anyPush := true, allSynced := false }
  | .pendingPull => { flags with sawAny := true, anyPull := true, allSynced := false }
  | .error => { flags with sawAny := true, anyError := true, allSynced := false }

def status (flags : RollupFlags) (dirHasLocal : Bool) : Text :=
  if flags.anyError then text "error"
  else if flags.anyPush then text "pending_push"
  else if flags.anyPull then text "pending_pull"
  else if flags.sawAny && flags.allSynced then text "synced"
  else if dirHasLocal then text "synced"
  else text "not_synced"

end RollupFlags

/-- The separator keeps siblings out whose names start with that of the directory. -/
def folderPrefix (dirRemotePath : Text) : Text := trimEndMatches '/' dirRemotePath ++ ['/']

def folderRollupStatus (allMetas : List FileSyncMeta) (dirRemotePath : Text) (dirHasLocal : Bool) : Text :=
  (allMetas.foldl (fun flags record =>
    if folderPrefix dirRemotePath <+: record.path then flags.saw record.syncStatus else flags)
    RollupFlags.initial).status dirHasLocal

end Routes

/-- The path of an entry of a directory. -/
def entryPath (dir name : Text) : Text := trimEndMatches '/' dir ++ '/' :: name

def IsBelow (dir path : Text) : Prop := Routes.folderPrefix dir <+: path

/-- The path goes on below the entry of this name. -/
def IsBelowEntry (dir name path : Text) : Prop := entryPath dir name ++ ['/'] <+: path

/-- The path is that of an entry of the directory. -/
def IsDirectlyIn (dir path : Text) : Prop := ∃ name, '/' ∉ name ∧ path = entryPath dir name

/-- The statuses of the records that satisfy a condition. -/
def statuses (metas : List FileSyncMeta) (P : Text → Prop) : Set SyncStatus :=
  {status | ∃ record ∈ metas, P record.path ∧ record.syncStatus = status}

/-- The statuses of the records that lie directly in a directory, and those of its subdirectories with records. -/
def contents (metas : List FileSyncMeta) (dir : Text) : Set SyncStatus :=
  statuses metas (IsDirectlyIn dir) ∪ {status | ∃ name, '/' ∉ name ∧
    (∃ record ∈ metas, IsBelowEntry dir name record.path) ∧
    ∀ dirHasLocal, Routes.folderRollupStatus metas (entryPath dir name) dirHasLocal = status.entryName}

section

open Routes

variable {metas : List FileSyncMeta} {dir name : Text} {dirHasLocal : Bool}

/-- The flags tell of the statuses that have been seen. -/
structure Tells (flags : RollupFlags) (seen : Set SyncStatus) : Prop where
  sawAny : flags.sawAny = true ↔ seen.Nonempty
  anyError : flags.anyError = true ↔ .error ∈ seen
  anyPush : flags.anyPush = true ↔ .pendingPush ∈ seen
  anyPull : flags.anyPull = true ↔ .pendingPull ∈ seen
  allSynced : flags.allSynced = true ↔ ∀ status ∈ seen, status = .synced

theorem Tells.initial : Tells .initial ∅ := by
  constructor <;> simp [RollupFlags.initial]

theorem Tells.saw {flags : RollupFlags} {seen : Set SyncStatus} (tells : Tells flags seen) (status : SyncStatus) :
    Tells (flags.saw status) (insert status seen) := by
  obtain ⟨sawAny, anyError, anyPush, anyPull, allSynced⟩ := tells
  cases status <;> constructor <;> simp [RollupFlags.saw, anyError, anyPush, anyPull, allSynced]

theorem statuses_nil (P : Text → Prop) : statuses [] P = ∅ := by
  ext status
  simp [statuses]

theorem statuses_append (front back : List FileSyncMeta) (P : Text → Prop) :
    statuses (front ++ back) P = statuses front P ∪ statuses back P := by
  ext status
  simp [statuses, or_and_right, exists_or]

theorem statuses_singleton (record : FileSyncMeta) (P : Text → Prop) :
    statuses [record] P = {status | P record.path ∧ record.syncStatus = status} := by
  ext status
  simp [statuses]

/-- The flags of a whole list tell of the records below the directory. -/
theorem Tells.fold (metas : List FileSyncMeta) (dir : Text) :
    Tells (metas.foldl (fun flags record =>
      if folderPrefix dir <+: record.path then flags.saw record.syncStatus else flags) .initial)
      (statuses metas (IsBelow dir)) := by
  induction metas using List.reverseRecOn with
  | nil =>
      rw [statuses_nil]
      exact Tells.initial
  | append_singleton front record ih =>
      rw [List.foldl_append, List.foldl_cons, List.foldl_nil, statuses_append, statuses_singleton]
      split
      next below =>
        have one : {status | IsBelow dir record.path ∧ record.syncStatus = status} = {record.syncStatus} := by
          ext status
          simp [IsBelow, below, eq_comm]
        rw [one, Set.union_singleton]
        exact ih.saw record.syncStatus
      next elsewhere =>
        have none : {status | IsBelow dir record.path ∧ record.syncStatus = status} = ∅ := by
          ext status
          simp [IsBelow, elsewhere]
        rw [none, Set.union_empty]
        exact ih

/-- The flags yield the worst status. -/
theorem Tells.status {flags : RollupFlags} {seen : Set SyncStatus} (tells : Tells flags seen) {worst : SyncStatus}
    (greatest : IsGreatest seen worst) : flags.status dirHasLocal = worst.entryName := by
  obtain ⟨inside, above⟩ := greatest
  have unset : ∀ {flag : Bool} {status : SyncStatus}, (flag = true ↔ status ∈ seen) → ¬ status ≤ worst →
      flag = false := by
    intro flag status told higher
    apply Bool.eq_false_iff.mpr
    intro set
    exact higher (above (told.mp set))
  cases worst with
  | error => simp [RollupFlags.status, tells.anyError.mpr inside, SyncStatus.entryName]
  | pendingPush =>
      simp [RollupFlags.status, unset tells.anyError (by decide), tells.anyPush.mpr inside, SyncStatus.entryName]
  | pendingPull =>
      simp [RollupFlags.status, unset tells.anyError (by decide), unset tells.anyPush (by decide),
        tells.anyPull.mpr inside, SyncStatus.entryName]
  | synced =>
      have all : flags.allSynced = true := by
        rw [tells.allSynced]
        intro status member
        cases status with
        | synced => rfl
        | _ => exact absurd (above member) (by decide)
      simp [RollupFlags.status, unset tells.anyError (by decide), unset tells.anyPush (by decide),
        unset tells.anyPull (by decide), tells.sawAny.mpr ⟨_, inside⟩, all, SyncStatus.entryName]

/-- Without a record the copy on the disk decides. -/
theorem Tells.status_none {flags : RollupFlags} (tells : Tells flags ∅) :
    flags.status dirHasLocal = if dirHasLocal then text "synced" else text "not_synced" := by
  have unset : ∀ {flag : Bool} {status : SyncStatus}, (flag = true ↔ status ∈ (∅ : Set SyncStatus)) →
      flag = false := by
    intro flag status told
    apply Bool.eq_false_iff.mpr
    intro set
    exact told.mp set
  have unseen : flags.sawAny = false := by
    apply Bool.eq_false_iff.mpr
    intro set
    exact Set.not_nonempty_empty (tells.sawAny.mp set)
  simp [RollupFlags.status, unset tells.anyError, unset tells.anyPush, unset tells.anyPull, unseen]

theorem exists_worst {seen : Set SyncStatus} (nonempty : seen.Nonempty) : ∃ worst, IsGreatest seen worst := by
  by_cases error : .error ∈ seen
  · exact ⟨.error, error, fun status _ => by cases status <;> decide⟩
  · by_cases push : .pendingPush ∈ seen
    · refine ⟨.pendingPush, push, fun status member => ?_⟩
      cases status with
      | error => exact absurd member error
      | _ => decide
    · by_cases pull : .pendingPull ∈ seen
      · refine ⟨.pendingPull, pull, fun status member => ?_⟩
        cases status with
        | error => exact absurd member error
        | pendingPush => exact absurd member push
        | _ => decide
      · have synced : ∀ status ∈ seen, status = .synced := by
          intro status member
          cases status with
          | synced => rfl
          | error => exact absurd member error
          | pendingPush => exact absurd member push
          | pendingPull => exact absurd member pull
        obtain ⟨status, member⟩ := nonempty
        refine ⟨.synced, synced status member ▸ member, fun other inside => ?_⟩
        rw [synced other inside]

theorem entryName_injective : Function.Injective SyncStatus.entryName := by
  intro first second same
  cases first <;> cases second <;> first | rfl | exact absurd same (by decide +kernel)

/-- The status of a directory is the worst one below it. -/
theorem folderRollupStatus_greatest {worst : SyncStatus} (greatest : IsGreatest (statuses metas (IsBelow dir)) worst) :
    folderRollupStatus metas dir dirHasLocal = worst.entryName :=
  (Tells.fold metas dir).status greatest

theorem folderRollupStatus_none (none : statuses metas (IsBelow dir) = ∅) :
    folderRollupStatus metas dir dirHasLocal = if dirHasLocal then text "synced" else text "not_synced" := by
  have tells := Tells.fold metas dir
  rw [none] at tells
  exact tells.status_none

/-- Only the statuses below the directory count. -/
theorem folderRollupStatus_congr {metas' : List FileSyncMeta} {dir' : Text}
    (same : statuses metas (IsBelow dir) = statuses metas' (IsBelow dir')) :
    folderRollupStatus metas dir dirHasLocal = folderRollupStatus metas' dir' dirHasLocal := by
  cases Set.eq_empty_or_nonempty (statuses metas (IsBelow dir)) with
  | inl none => rw [folderRollupStatus_none none, folderRollupStatus_none (same ▸ none)]
  | inr nonempty =>
      obtain ⟨worst, greatest⟩ := exists_worst nonempty
      rw [folderRollupStatus_greatest greatest, folderRollupStatus_greatest (same ▸ greatest)]

theorem isBelow_eq (dir : Text) : IsBelow dir = fun path => ∃ rest, path = entryPath dir rest := by
  funext path
  apply propext
  constructor
  · intro ⟨rest, whole⟩
    exact ⟨rest, by rw [← whole, folderPrefix, entryPath, List.append_assoc]; rfl⟩
  · intro ⟨rest, whole⟩
    exact ⟨rest, by rw [whole, folderPrefix, entryPath, List.append_assoc]; rfl⟩

/-- A path below a directory is that of an entry, or it goes on below one. -/
theorem isBelow_cases {path : Text} : IsBelow dir path ↔
    IsDirectlyIn dir path ∨ ∃ name, '/' ∉ name ∧ IsBelowEntry dir name path := by
  rw [isBelow_eq]
  constructor
  · intro ⟨rest, whole⟩
    by_cases deeper : '/' ∈ rest
    · obtain ⟨name, more, rfl, free⟩ := List.eq_append_cons_of_mem deeper
      exact Or.inr ⟨name, free, more, by rw [whole, entryPath, entryPath]; simp⟩
    · exact Or.inl ⟨rest, deeper, whole⟩
  · intro found
    cases found with
    | inl direct =>
        obtain ⟨name, -, whole⟩ := direct
        exact ⟨name, whole⟩
    | inr deeper =>
        obtain ⟨name, -, more, whole⟩ := deeper
        exact ⟨name ++ '/' :: more, by rw [← whole, entryPath, entryPath]; simp⟩

/-- A directory with a name is the prefix of the paths below it. -/
theorem isBelow_entryPath {path : Text} (free : '/' ∉ name) (nonempty : name ≠ []) :
    IsBelow (entryPath dir name) path ↔ IsBelowEntry dir name path := by
  have kept : trimEndMatches '/' (entryPath dir name) = entryPath dir name := by
    obtain ⟨front, last, rfl⟩ := (List.eq_nil_or_concat name).resolve_left nonempty
    have different : last ≠ '/' := by
      intro same
      subst same
      exact free (by simp)
    rw [entryPath, List.concat_eq_append, ← List.cons_append, ← List.append_assoc, trimEndMatches]
    exact List.rdropWhile_concat_neg _ _ _ (by simpa using different)
  rw [IsBelow, folderPrefix, kept]
  rfl

/-- The records below a directory are those directly in it and those below its entries. -/
theorem statuses_isBelow (metas : List FileSyncMeta) (dir : Text) :
    statuses metas (IsBelow dir) = statuses metas (IsDirectlyIn dir) ∪
      ⋃ name : {name : Text // '/' ∉ name}, statuses metas (IsBelowEntry dir name) := by
  ext status
  simp only [statuses, Set.mem_union, Set.mem_iUnion, Set.mem_ofPred_eq, isBelow_cases, Subtype.exists]
  constructor
  · intro ⟨record, inside, below, same⟩
    cases below with
    | inl direct => exact Or.inl ⟨record, inside, direct, same⟩
    | inr deeper =>
        obtain ⟨name, free, below⟩ := deeper
        exact Or.inr ⟨name, free, record, inside, below, same⟩
  · intro found
    cases found with
    | inl direct =>
        obtain ⟨record, inside, direct, same⟩ := direct
        exact ⟨record, inside, Or.inl direct, same⟩
    | inr deeper =>
        obtain ⟨name, free, record, inside, below, same⟩ := deeper
        exact ⟨record, inside, Or.inr ⟨name, free, below⟩, same⟩

theorem folderPrefix_slash (dir : Text) : folderPrefix (dir ++ ['/']) = folderPrefix dir := by
  rw [folderPrefix, trimEndMatches, List.rdropWhile_concat_pos _ _ _ (by decide)]
  rfl

theorem folderPrefix_entryPath (dir : Text) : folderPrefix (entryPath dir []) = folderPrefix dir := by
  rw [entryPath, folderPrefix_slash, folderPrefix, trimEndMatches_idem]
  rfl

/-- What the subdirectory of a name shows is the worst status below it. -/
theorem folderRollupStatus_entry {worst top : SyncStatus} (free : '/' ∉ name)
    (greatest : IsGreatest (statuses metas (IsBelow dir)) worst)
    (highest : IsGreatest (statuses metas (IsBelowEntry dir name)) top) :
    folderRollupStatus metas (entryPath dir name) dirHasLocal = if name = [] then worst.entryName else top.entryName := by
  split
  next empty =>
    subst empty
    apply folderRollupStatus_greatest
    have same : IsBelow (entryPath dir []) = IsBelow dir := by
      funext path
      rw [IsBelow, IsBelow, folderPrefix_entryPath]
    rw [same]
    exact greatest
  next nonempty =>
    apply folderRollupStatus_greatest
    have same : IsBelow (entryPath dir name) = IsBelowEntry dir name := by
      funext path
      exact propext (isBelow_entryPath free nonempty)
    rw [same]
    exact highest

/-- The worst status below a directory is the worst one of its contents. -/
theorem isGreatest_contents {worst : SyncStatus} (greatest : IsGreatest (statuses metas (IsBelow dir)) worst) :
    IsGreatest (contents metas dir) worst := by
  have cover := statuses_isBelow metas dir
  obtain ⟨inside, above⟩ := isGreatest_pieces cover greatest
  constructor
  · cases inside with
    | inl direct => exact Or.inl direct
    | inr top =>
        obtain ⟨⟨name, free⟩, highest⟩ := top
        obtain ⟨record, present, below, -⟩ := highest.1
        refine Or.inr ⟨name, free, ⟨record, present, below⟩, ?_⟩
        intro dirHasLocal
        rw [folderRollupStatus_entry free greatest highest, ite_self]
  · intro status member
    cases member with
    | inl direct => exact above (Or.inl direct)
    | inr shown =>
        obtain ⟨name, free, ⟨record, present, below⟩, shown⟩ := shown
        have nonempty : (statuses metas (IsBelowEntry dir name)).Nonempty :=
          ⟨record.syncStatus, record, present, below, rfl⟩
        obtain ⟨top, highest⟩ := exists_worst nonempty
        have same := shown false
        rw [folderRollupStatus_entry free greatest highest] at same
        split at same
        · rw [← entryName_injective same]
        · rw [← entryName_injective same]
          exact above (Or.inr ⟨⟨name, free⟩, highest⟩)

theorem statuses_perm {metas' : List FileSyncMeta} (arranged : metas.Perm metas') (P : Text → Prop) :
    statuses metas P = statuses metas' P := by
  ext status
  simp [statuses, arranged.mem_iff]

/-- A sibling whose name continues that of the directory is not below it. -/
theorem not_isBelow_sibling {path rest : Text} {c : Char} (other : c ≠ '/')
    (sibling : path = trimEndMatches '/' dir ++ c :: rest) : ¬ IsBelow dir path := by
  intro ⟨more, whole⟩
  rw [sibling, folderPrefix, List.append_assoc] at whole
  exact other (List.cons.inj (List.append_cancel_left whole)).1.symm

end

/-- The status of a directory is the worst one of its contents, and nothing else counts. -/
theorem folderRollupStatus_law (metas : List FileSyncMeta) (dir : Text) :
    ((∃ record ∈ metas, IsBelow dir record.path) → ∃ worst, IsGreatest (contents metas dir) worst ∧
      ∀ dirHasLocal, Routes.folderRollupStatus metas dir dirHasLocal = worst.entryName) ∧
    ((¬ ∃ record ∈ metas, IsBelow dir record.path) → ∀ dirHasLocal,
      Routes.folderRollupStatus metas dir dirHasLocal =
        if dirHasLocal then text "synced" else text "not_synced") ∧
    (∀ metas', metas.Perm metas' → ∀ dirHasLocal,
      Routes.folderRollupStatus metas' dir dirHasLocal = Routes.folderRollupStatus metas dir dirHasLocal) ∧
    (∀ front record back c rest, metas = front ++ record :: back → c ≠ '/' →
      record.path = trimEndMatches '/' dir ++ c :: rest → ∀ dirHasLocal,
      Routes.folderRollupStatus metas dir dirHasLocal = Routes.folderRollupStatus (front ++ back) dir dirHasLocal) ∧
    ∀ dirHasLocal, Routes.folderRollupStatus metas (dir ++ ['/']) dirHasLocal =
      Routes.folderRollupStatus metas dir dirHasLocal := by
  refine ⟨?_, ?_, ?_, ?_, ?_⟩
  · intro ⟨record, present, below⟩
    have nonempty : (statuses metas (IsBelow dir)).Nonempty := ⟨record.syncStatus, record, present, below, rfl⟩
    obtain ⟨worst, greatest⟩ := exists_worst nonempty
    exact ⟨worst, isGreatest_contents greatest, fun _ => folderRollupStatus_greatest greatest⟩
  · intro absent dirHasLocal
    apply folderRollupStatus_none
    apply Set.eq_empty_of_forall_notMem
    intro status ⟨record, present, below, _⟩
    exact absent ⟨record, present, below⟩
  · intro metas' arranged dirHasLocal
    exact folderRollupStatus_congr (statuses_perm arranged.symm _)
  · intro front record back c rest whole other sibling dirHasLocal
    apply folderRollupStatus_congr
    have apart := not_isBelow_sibling other sibling
    have none : {status | IsBelow dir record.path ∧ record.syncStatus = status} = ∅ := by
      ext status
      simp [apart]
    rw [whole, ← List.singleton_append, statuses_append, statuses_append, statuses_append, statuses_singleton, none,
      Set.empty_union]
  · intro dirHasLocal
    apply folderRollupStatus_congr
    have same : IsBelow (dir ++ ['/']) = IsBelow dir := by
      funext path
      rw [IsBelow, IsBelow, folderPrefix_slash]
    rw [same]

end AeordbSync

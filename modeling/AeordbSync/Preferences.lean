import AeordbSync.Library.MergePatch
import AeordbSync.Configuration.Atomicity

namespace AeordbSync
open Characters Document Effect Persisted

/-- A negative number is less than zero, and the bits are those of a finite float. -/
inductive Number where
  | posInt (value : UInt64)
  | negInt (value : Int64)
  | float (bits : UInt64)
  deriving DecidableEq

namespace Number

def ofInt64 (value : Int64) : Number := if value < 0 then .negInt value else .posInt value.toUInt64

/-- A float is never read as an integer, whatever its value. -/
def int64? : Number → Option Int64
  | .posInt value => if value.toNat < 2 ^ 63 then some value.toInt64 else none
  | .negInt value => some value
  | .float _ => none

theorem int64?_ofInt64 (value : Int64) : (ofInt64 value).int64? = some value := by
  unfold ofInt64
  split
  next => rfl
  next positive =>
    have small : value.toUInt64.toNat < 2 ^ 63 := by
      rw [Int64.toNat_toUInt64_of_le (Int64.not_lt.mp positive)]
      exact value.toNatClampNeg_lt
    show (if value.toUInt64.toNat < 2 ^ 63 then some value.toUInt64.toInt64 else none) = some value
    rw [if_pos small, Int64.toInt64_toUInt64]

end Number

namespace Value

def isNull : Document Number → Bool
  | .null => true
  | _ => false

def isObject : Document Number → Bool
  | .object _ => true
  | _ => false

def string? : Document Number → Option Text
  | .string value => some value
  | _ => none

def bool? : Document Number → Option Bool
  | .bool value => some value
  | _ => none

def int64? : Document Number → Option Int64
  | .number value => value.int64?
  | _ => none

end Value

/-- A JSON value whose objects are maps. -/
abbrev Value := {document : Document Number // document.Distinct}

mutual

def applyMergePatch (target : Document Number) : Document Number → Document Number
  | .object patchMap => .object (applyEntries (if Value.isObject target then target.fields else []) patchMap)
  | other => other

/-- The loop over the entries of the patch. -/
def applyEntries (targetMap : Fields Number) : Fields Number → Fields Number
  | [] => targetMap
  | ⟨key, value⟩ :: rest =>
      applyEntries
        (if Value.isNull value then targetMap.kerase key
        else if Value.isObject value then
          targetMap.kinsert key (applyMergePatch ((targetMap.dlookup key).getD .null) value)
        else targetMap.kinsert key value)
        rest

end

mutual

theorem applyMergePatch_eq (target : Document Number) :
    ∀ patch, applyMergePatch target patch = mergePatch (some target) patch
  | .object patch => by
      have fields : (if Value.isObject target then target.fields else []) = target.fields := by
        cases target <;> rfl
      rw [applyMergePatch, mergePatch, fields, applyEntries_eq target.fields patch]
      rfl
  | .null | .bool _ | .number _ | .string _ | .array _ => rfl

theorem applyEntries_eq (target : Fields Number) : ∀ patch, applyEntries target patch = mergeFields target patch
  | [] => by rw [applyEntries, mergeFields]
  | ⟨key, value⟩ :: rest => by
      have entry : (if Value.isNull value then target.kerase key
          else if Value.isObject value then
            target.kinsert key (applyMergePatch ((target.dlookup key).getD .null) value)
          else target.kinsert key value) = assign target key value (mergePatch (target.dlookup key) value) := by
        have inner := applyMergePatch_eq ((target.dlookup key).getD .null) value
        rw [inner]
        cases value with
        | object patch =>
            show target.kinsert key _ = target.kinsert key _
            cases target.dlookup key with
            | none => rw [Option.getD_none, mergePatch_null]
            | some value => rfl
        | _ => rfl
      rw [applyEntries, mergeFields, entry, applyEntries_eq _ rest]

end

/-- A value that may be missing is a null or the value. -/
def nullable {α : Type} (encode : α → Document Number) : Option α → Document Number
  | none => .null
  | some value => encode value

def optionString : Codec Number (Option Text) :=
  .scalar (nullable .string) (Codec.optional Value.string?) (fun value => by cases value <;> rfl) fun _ => rfl

def optionInt64 : Codec Number (Option Int64) :=
  .scalar (nullable fun value => .number (.ofInt64 value)) (Codec.optional Value.int64?)
    (fun value => by
      cases value with
      | none => rfl
      | some value => exact congrArg (Option.map some) (Number.int64?_ofInt64 value))
    fun _ => rfl

def int64 : Codec Number Int64 :=
  .scalar (fun value => .number (.ofInt64 value)) Value.int64? Number.int64?_ofInt64 fun _ => rfl

def boolean : Codec Number Bool := .scalar .bool Value.bool? (fun _ => rfl) fun _ => rfl

structure FileBrowserTab where
  id : Text
  name : Option Text
  path : Option Text
  viewMode : Option Text
  pageSize : Option Int64
  previewHeight : Option Int64
  relationshipId : Option Text
  relationshipName : Option Text
  deriving DecidableEq

namespace FileBrowserTab

def toValue (tab : FileBrowserTab) : Document Number :=
  .object
    [⟨text "id", .string tab.id⟩, ⟨text "name", optionString.encode tab.name⟩,
      ⟨text "path", optionString.encode tab.path⟩, ⟨text "view_mode", optionString.encode tab.viewMode⟩,
      ⟨text "page_size", optionInt64.encode tab.pageSize⟩,
      ⟨text "preview_height", optionInt64.encode tab.previewHeight⟩,
      ⟨text "relationship_id", optionString.encode tab.relationshipId⟩,
      ⟨text "relationship_name", optionString.encode tab.relationshipName⟩]

/-- Only the identifier has no default. -/
def fromValue (value : Document Number) : Option FileBrowserTab :=
  if value.isRecord 8 then do
    let id ← (value.member 0 (text "id")).bind Value.string?
    let name ← optionString.field none (value.member 1 (text "name"))
    let path ← optionString.field none (value.member 2 (text "path"))
    let viewMode ← optionString.field none (value.member 3 (text "view_mode"))
    let pageSize ← optionInt64.field none (value.member 4 (text "page_size"))
    let previewHeight ← optionInt64.field none (value.member 5 (text "preview_height"))
    let relationshipId ← optionString.field none (value.member 6 (text "relationship_id"))
    let relationshipName ← optionString.field none (value.member 7 (text "relationship_name"))
    some ⟨id, name, path, viewMode, pageSize, previewHeight, relationshipId, relationshipName⟩
  else none

theorem fromValue_toValue (tab : FileBrowserTab) : fromValue tab.toValue = some tab := by
  have members : tab.toValue.member 0 (text "id") = some (.string tab.id) ∧
      tab.toValue.member 1 (text "name") = some (optionString.encode tab.name) ∧
      tab.toValue.member 2 (text "path") = some (optionString.encode tab.path) ∧
      tab.toValue.member 3 (text "view_mode") = some (optionString.encode tab.viewMode) ∧
      tab.toValue.member 4 (text "page_size") = some (optionInt64.encode tab.pageSize) ∧
      tab.toValue.member 5 (text "preview_height") = some (optionInt64.encode tab.previewHeight) ∧
      tab.toValue.member 6 (text "relationship_id") = some (optionString.encode tab.relationshipId) ∧
      tab.toValue.member 7 (text "relationship_name") = some (optionString.encode tab.relationshipName) := by
    refine ⟨?_, ?_, ?_, ?_, ?_, ?_, ?_, ?_⟩ <;> rfl
  obtain ⟨id, name, path, viewMode, pageSize, previewHeight, relationshipId, relationshipName⟩ := members
  have record : tab.toValue.isRecord 8 = true := rfl
  simp [fromValue, record, id, name, path, viewMode, pageSize, previewHeight, relationshipId, relationshipName,
    Codec.field_encode, Value.string?]

end FileBrowserTab

def tabsFromValue : Document Number → Option (List FileBrowserTab)
  | .array items => items.mapM FileBrowserTab.fromValue
  | _ => none

def tabList : Codec Number (List FileBrowserTab) :=
  .scalar (fun tabs => .array (tabs.map FileBrowserTab.toValue)) tabsFromValue
    (fun tabs => by
      show (tabs.map FileBrowserTab.toValue).mapM FileBrowserTab.fromValue = some tabs
      induction tabs with
      | nil => rfl
      | cons tab rest ih => simp [FileBrowserTab.fromValue_toValue, ih])
    fun _ => rfl

structure FileBrowserPrefs where
  openDefault : Option Text
  showHidden : Bool
  tabs : List FileBrowserTab
  activeTabId : Option Text
  tabCounter : Int64
  deriving DecidableEq

namespace FileBrowserPrefs

def initial : FileBrowserPrefs := ⟨none, false, [], none, 0⟩

def entries (prefs : FileBrowserPrefs) : Fields Number :=
  [⟨text "open_default", optionString.encode prefs.openDefault⟩, ⟨text "show_hidden", boolean.encode prefs.showHidden⟩,
    ⟨text "tabs", tabList.encode prefs.tabs⟩, ⟨text "active_tab_id", optionString.encode prefs.activeTabId⟩,
    ⟨text "tab_counter", int64.encode prefs.tabCounter⟩]

def toValue (prefs : FileBrowserPrefs) : Document Number := .object prefs.entries

def fromValue (value : Document Number) : Option FileBrowserPrefs :=
  if value.isRecord 5 then do
    let openDefault ← optionString.field none (value.member 0 (text "open_default"))
    let showHidden ← boolean.field false (value.member 1 (text "show_hidden"))
    let tabs ← tabList.field [] (value.member 2 (text "tabs"))
    let activeTabId ← optionString.field none (value.member 3 (text "active_tab_id"))
    let tabCounter ← int64.field 0 (value.member 4 (text "tab_counter"))
    some ⟨openDefault, showHidden, tabs, activeTabId, tabCounter⟩
  else none

/-- An object is read field by field. -/
theorem fromValue_object {fields : Fields Number} {prefs : FileBrowserPrefs} :
    fromValue (.object fields) = some prefs ↔
      optionString.field none (fields.dlookup (text "open_default")) = some prefs.openDefault ∧
      boolean.field false (fields.dlookup (text "show_hidden")) = some prefs.showHidden ∧
      tabList.field [] (fields.dlookup (text "tabs")) = some prefs.tabs ∧
      optionString.field none (fields.dlookup (text "active_tab_id")) = some prefs.activeTabId ∧
      int64.field 0 (fields.dlookup (text "tab_counter")) = some prefs.tabCounter := by
  have record : (Document.object fields).isRecord 5 = true := rfl
  have members : ∀ index key, (Document.object fields).member index key = fields.dlookup key := fun _ _ => rfl
  unfold fromValue
  rw [if_pos record]
  simp only [members, Option.bind_eq_bind, Option.bind_eq_some_iff, Option.some.injEq]
  constructor
  · rintro ⟨openDefault, first, showHidden, second, tabs, third, activeTabId, fourth, tabCounter, fifth, rfl⟩
    exact ⟨first, second, third, fourth, fifth⟩
  · rintro ⟨first, second, third, fourth, fifth⟩
    exact ⟨_, first, _, second, _, third, _, fourth, _, fifth, rfl⟩

/-- The entries of the preferences have names of their own. -/
theorem dlookup_entries (prefs : FileBrowserPrefs) : prefs.entries.NodupKeys ∧
    prefs.entries.dlookup (text "open_default") = some (optionString.encode prefs.openDefault) ∧
    prefs.entries.dlookup (text "show_hidden") = some (boolean.encode prefs.showHidden) ∧
    prefs.entries.dlookup (text "tabs") = some (tabList.encode prefs.tabs) ∧
    prefs.entries.dlookup (text "active_tab_id") = some (optionString.encode prefs.activeTabId) ∧
    prefs.entries.dlookup (text "tab_counter") = some (int64.encode prefs.tabCounter) := by
  refine ⟨?_, rfl, rfl, rfl, rfl, rfl⟩
  show [text "open_default", text "show_hidden", text "tabs", text "active_tab_id", text "tab_counter"].Nodup
  decide

theorem fromValue_toValue (prefs : FileBrowserPrefs) : fromValue prefs.toValue = some prefs := by
  obtain ⟨-, openDefault, showHidden, tabs, activeTabId, tabCounter⟩ := prefs.dlookup_entries
  rw [toValue, fromValue_object, openDefault, showHidden, tabs, activeTabId, tabCounter]
  simp only [Codec.field_encode, and_self]

/-- The preferences that a patch makes of an object are settled by it, field by field. -/
theorem settles {a b : FileBrowserPrefs} {patch : Document Number} (distinct : patch.Distinct)
    (read : fromValue (mergePatch (some a.toValue) patch) = some b) :
    fromValue (mergePatch (some b.toValue) patch) = some b := by
  cases patch with
  | object patch =>
      obtain ⟨before, openDefault, showHidden, tabs, activeTabId, tabCounter⟩ := a.dlookup_entries
      obtain ⟨after, openDefault', showHidden', tabs', activeTabId', tabCounter'⟩ := b.dlookup_entries
      have merged : ∀ prefs : FileBrowserPrefs, mergePatch (some prefs.toValue) (.object patch) =
          .object (mergeFields prefs.entries patch) := fun _ => by
        rw [mergePatch]
        rfl
      rw [merged, fromValue_object] at read
      rw [merged, fromValue_object]
      obtain ⟨first, second, third, fourth, fifth⟩ := read
      exact ⟨optionString.member_settles distinct before after openDefault openDefault' first,
        boolean.member_settles distinct before after showHidden showHidden' second,
        tabList.member_settles distinct before after tabs tabs' third,
        optionString.member_settles distinct before after activeTabId activeTabId' fourth,
        int64.member_settles distinct before after tabCounter tabCounter' fifth⟩
  | _ => exact read

end FileBrowserPrefs

def fileBrowserPrefs : Codec Number FileBrowserPrefs :=
  ⟨FileBrowserPrefs.toValue, FileBrowserPrefs.fromValue, FileBrowserPrefs.fromValue_toValue, FileBrowserPrefs.settles⟩

structure UserPreferences where
  fileBrowser : FileBrowserPrefs
  deriving DecidableEq

namespace UserPreferences

def entries (prefs : UserPreferences) : Fields Number :=
  [⟨text "file_browser", fileBrowserPrefs.encode prefs.fileBrowser⟩]

def toValue (prefs : UserPreferences) : Document Number := .object prefs.entries

def fromValue (value : Document Number) : Option UserPreferences :=
  if value.isRecord 1 then do
    let fileBrowser ← fileBrowserPrefs.field .initial (value.member 0 (text "file_browser"))
    some ⟨fileBrowser⟩
  else none

theorem fromValue_object {fields : Fields Number} {prefs : UserPreferences} :
    fromValue (.object fields) = some prefs ↔
      fileBrowserPrefs.field .initial (fields.dlookup (text "file_browser")) = some prefs.fileBrowser := by
  have record : (Document.object fields).isRecord 1 = true := rfl
  have members : ∀ index key, (Document.object fields).member index key = fields.dlookup key := fun _ _ => rfl
  unfold fromValue
  rw [if_pos record]
  simp only [members, Option.bind_eq_bind, Option.bind_eq_some_iff, Option.some.injEq]
  constructor
  · rintro ⟨fileBrowser, read, rfl⟩
    exact read
  · intro read
    exact ⟨_, read, rfl⟩

theorem nodupKeys_entries (prefs : UserPreferences) : prefs.entries.NodupKeys := by
  show [text "file_browser"].Nodup
  decide

theorem fromValue_toValue (prefs : UserPreferences) : fromValue prefs.toValue = some prefs := by
  rw [toValue, fromValue_object]
  exact fileBrowserPrefs.field_encode .initial prefs.fileBrowser

theorem settles {a b : UserPreferences} {patch : Document Number} (distinct : patch.Distinct)
    (read : fromValue (mergePatch (some a.toValue) patch) = some b) :
    fromValue (mergePatch (some b.toValue) patch) = some b := by
  cases patch with
  | object patch =>
      have merged : ∀ prefs : UserPreferences, mergePatch (some prefs.toValue) (.object patch) =
          .object (mergeFields prefs.entries patch) := fun _ => by
        rw [mergePatch]
        rfl
      rw [merged, fromValue_object] at read
      rw [merged, fromValue_object]
      exact fileBrowserPrefs.member_settles distinct a.nodupKeys_entries b.nodupKeys_entries rfl rfl read
  | _ => exact read

/-- The merge of a patch into the preferences, with the text in which a value of another shape is refused. -/
def merged (refusal : Document Number → Text) (patch : Value) (prefs : UserPreferences) :
    Except ClientError UserPreferences :=
  let current := applyMergePatch prefs.toValue patch.val
  match fromValue current with
  | some merged => .ok merged
  | none => .error (.badRequest (text "preferences patch produced invalid state: " ++ refusal current))

theorem merged_ok {refusal : Document Number → Text} {patch : Value} {a b : UserPreferences}
    (read : merged refusal patch a = .ok b) : merged refusal patch b = .ok b := by
  unfold merged at read ⊢
  rw [applyMergePatch_eq] at read ⊢
  simp only at read ⊢
  split at read
  next next decoded =>
    cases read
    rw [settles patch.property decoded]
  next => cases read

end UserPreferences

/-- What the messages and the file show of the preferences. -/
structure PreferencesFormat where
  directory : Text
  path : Text
  yaml : UserPreferences → Text
  refusal : Document Number → Text

namespace PreferencesStore

variable (format : PreferencesFormat) (patch : Value)

def mergeUserPatch (fault : Option Fault) : Proc (Store UserPreferences Text) ClientError UserPreferences :=
  mergePatch format.directory format.path format.yaml fault (UserPreferences.merged format.refusal patch)

/-- The preferences after calls with one patch, each with a fault of its own or none. -/
def applications (faults : List (Option Fault)) (store : Store UserPreferences Text) : Store UserPreferences Text :=
  faults.foldl (fun store fault => (mergeUserPatch format patch fault store).2) store

variable {format patch} {store : Store UserPreferences Text} {next : UserPreferences}

/-- A patch of another shape is refused before anything is written. -/
theorem mergeUserPatch_refused {error : ClientError}
    (refused : UserPreferences.merged format.refusal patch store.memory = .error error) (fault : Option Fault) :
    mergeUserPatch format patch fault store = (.error error, store) := by
  simp [mergeUserPatch, mergePatch, Store.saveThenCommit, Proc.bind_apply, Proc.ofExcept, refused]

theorem mergeUserPatch_saved (merged : UserPreferences.merged format.refusal patch store.memory = .ok next) :
    mergeUserPatch format patch none store = (.ok next, ⟨next, some (format.yaml next)⟩) := by
  simp [mergeUserPatch, mergePatch, Store.saveThenCommit, Proc.bind_apply, Proc.ofExcept, merged, Store.onFile,
    Proc.zoom, saveInner]

theorem mergeUserPatch_fault (merged : UserPreferences.merged format.refusal patch store.memory = .ok next)
    (fault : Fault) : ∃ error, (mergeUserPatch format patch (some fault) store).1 = .error error := by
  cases fault <;> simp [mergeUserPatch, mergePatch, Store.saveThenCommit, Proc.bind_apply, Proc.ofExcept, merged,
    Store.onFile, Proc.zoom, saveInner]

/-- The first call that is saved decides the preferences, and no later one changes them. -/
theorem applications_memory (merged : UserPreferences.merged format.refusal patch store.memory = .ok next)
    (faults : List (Option Fault)) :
    (none ∈ faults → (applications format patch faults store).memory = next) ∧
      (none ∉ faults → (applications format patch faults store).memory = store.memory) := by
  induction faults generalizing store with
  | nil => exact ⟨fun saved => absurd saved List.not_mem_nil, fun _ => rfl⟩
  | cons fault rest ih =>
      have step : applications format patch (fault :: rest) store =
          applications format patch rest (mergeUserPatch format patch fault store).2 := rfl
      rw [step]
      cases fault with
      | none =>
          rw [mergeUserPatch_saved merged]
          have later := @ih ⟨next, some (format.yaml next)⟩ (UserPreferences.merged_ok merged)
          refine ⟨fun _ => ?_, fun never => absurd List.mem_cons_self never⟩
          by_cases again : none ∈ rest
          · exact later.1 again
          · exact later.2 again
      | some fault =>
          obtain ⟨error, failed⟩ := mergeUserPatch_fault merged fault
          have kept : (mergeUserPatch format patch (some fault) store).2.memory = store.memory :=
            mergePatch_failed failed
          have later := @ih (mergeUserPatch format patch (some fault) store).2 (kept ▸ merged)
          rw [kept] at later
          simpa using later

/-- A call that is made again changes nothing. -/
theorem mergeUserPatch_twice (format : PreferencesFormat) (patch : Value) (store : Store UserPreferences Text) :
    mergeUserPatch format patch none (mergeUserPatch format patch none store).2 =
      mergeUserPatch format patch none store := by
  cases merged : UserPreferences.merged format.refusal patch store.memory with
  | error error => rw [mergeUserPatch_refused merged, mergeUserPatch_refused merged]
  | ok next =>
      rw [mergeUserPatch_saved merged]
      exact mergeUserPatch_saved (UserPreferences.merged_ok merged)

/-- A patch is merged as RFC 7396 says, once and for all, and a call that fails leaves the preferences as they were. -/
theorem preferencesPatch_atomic :
    (∀ target patch : Document Number, applyMergePatch target patch = Document.mergePatch (some target) patch) ∧
    ∀ (format : PreferencesFormat) (patch : Value) (store : Store UserPreferences Text),
      mergeUserPatch format patch none (mergeUserPatch format patch none store).2 =
        mergeUserPatch format patch none store ∧
      (∀ faults next, UserPreferences.merged format.refusal patch store.memory = .ok next →
        (none ∈ faults → (applications format patch faults store).memory = next) ∧
        (none ∉ faults → (applications format patch faults store).memory = store.memory)) ∧
      (∀ fault error, (mergeUserPatch format patch fault store).1 = .error error →
        (mergeUserPatch format patch fault store).2.memory = store.memory) ∧
      ∀ fault error, UserPreferences.merged format.refusal patch store.memory = .error error →
        mergeUserPatch format patch fault store = (.error error, store) := by
  refine ⟨applyMergePatch_eq, fun format patch store => ⟨mergeUserPatch_twice format patch store, ?_, ?_, ?_⟩⟩
  · intro faults next merged
    exact applications_memory merged faults
  · intro fault error failed
    exact mergePatch_failed failed
  · intro fault error refused
    exact mergeUserPatch_refused refused fault

end PreferencesStore

end AeordbSync

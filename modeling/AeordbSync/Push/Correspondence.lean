import AeordbSync.Push.Symlinks

namespace AeordbSync
open Characters OsPath

/-- The entries that a walk hands on to a push. -/
inductive AcceptedKind where
  | file
  | symlink
  deriving DecidableEq

/-- An entry that a push uploads, with the names that lead to it. Only the name of a file itself is checked. -/
structure AcceptedEntry where
  kind : AcceptedKind
  names : List OsText
  nonempty : names ≠ []
  valid : ∀ name ∈ names, IsName name
  named : kind = .file → ∀ name ∈ names.getLast?, IsUtf8 name

namespace AcceptedEntry

def relative (entry : AcceptedEntry) : List Component := entry.names.map .normal

/-- Every name on the way to the entry can be read without loss. -/
def Readable (entry : AcceptedEntry) : Prop := ∀ name ∈ entry.names, IsUtf8 name

end AcceptedEntry

/-- A path of the engine below the root of a relationship. -/
structure CanonicalBelow (root path : Text) : Prop where
  parts : ∃ names : List Text, names ≠ [] ∧ (∀ name ∈ names, EngineName name) ∧
    path = trimEndMatches '/' root ++ '/' :: joinWith '/' names

/-- The entries of a relationship and the paths of the engine correspond one to one. -/
structure Correspond (localBase : PathBuf) (root : Text) (entries : Set AcceptedEntry) : Prop where
  returns : ∀ entry ∈ entries, computeLocalPath (computeRemotePath entry.relative root) root localBase =
    join localBase (relativeText entry.relative)
  distinct : ∀ first ∈ entries, ∀ second ∈ entries,
    computeRemotePath first.relative root = computeRemotePath second.relative root → first.names = second.names
  covers : ∀ path, CanonicalBelow root path →
    ∃ relative, stripPrefix (computeLocalPath path root localBase) localBase = some relative ∧
      computeRemotePath relative root = path

section

variable {names : List OsText} {localBase : PathBuf} {root path : Text} {entries : Set AcceptedEntry}

/-- The relative path of an entry is joined as its names. -/
theorem join_relativeText (localBase : PathBuf) (valid : ∀ name ∈ names, IsName name) (nonempty : names ≠ []) :
    join localBase (relativeText (names.map .normal)) = below localBase names := by
  have texts : (names.map Component.normal).map Component.text = names := by
    simp [Function.comp_def, Component.text]
  rw [relativeText, texts, join, ofText_intercalate valid nonempty]
  obtain ⟨first, rest, rfl⟩ := List.exists_cons_of_ne_nil nonempty
  obtain ⟨unit, more, rfl⟩ := List.exists_cons_of_ne_nil (valid first (by simp)).1
  rfl

theorem isUtf8_iff (name : OsText) : IsUtf8 name ↔ osText (toStringLossy name) = name := by
  constructor
  · intro ⟨t, same⟩
    rw [same, toStringLossy_osText]
  · intro same
    exact ⟨_, same.symm⟩

theorem below_of_nonempty (localBase : PathBuf) (nonempty : names ≠ []) :
    below localBase names = openEnd localBase ++ names := by
  obtain ⟨first, rest, rfl⟩ := List.exists_cons_of_ne_nil nonempty
  rfl

/-- An entry comes back to its place exactly when its names can be read without loss. -/
theorem computeLocalPath_eq_iff (localBase : PathBuf) (root : Text) (entry : AcceptedEntry) :
    computeLocalPath (computeRemotePath entry.relative root) root localBase =
      join localBase (relativeText entry.relative) ↔ entry.Readable := by
  rw [AcceptedEntry.relative, join_relativeText localBase entry.valid entry.nonempty,
    computeLocalPath_lossy root localBase entry.valid entry.nonempty, below_of_nonempty localBase entry.nonempty,
    List.append_cancel_left_eq, List.map_map]
  constructor
  · intro same name inside
    rw [isUtf8_iff]
    exact List.map_eq_map_iff.mp (same.trans (List.map_id entry.names).symm) name inside
  · intro readable
    refine (List.map_congr_left fun name inside => ?_).trans (List.map_id entry.names)
    exact (isUtf8_iff name).mp (readable name inside)

/-- A name of the engine can be the name of a file. -/
theorem EngineName.isName {name : Text} (valid : EngineName name) : IsName (osText name) := by
  have free : ∀ c, c ∉ name → OsUnit.char c ∉ osText name := by
    intro c absent inside
    obtain ⟨d, member, same⟩ := List.mem_map.mp inside
    cases same
    exact absent member
  have dotText : dot = osText (text ".") := by decide
  have upText : dot ++ dot = osText (text "..") := by decide
  refine ⟨?_, ?_, ?_, free '/' valid.unseparated, free _ valid.noNul⟩
  · intro empty
    exact valid.nonempty (List.map_eq_nil_iff.mp empty)
  · intro same
    rw [dotText] at same
    exact valid.stays (osText_injective same)
  · intro same
    rw [upText] at same
    exact valid.descends (osText_injective same)

/-- A path of the engine is that of an entry whose names can be read. -/
theorem CanonicalBelow.entry (canonical : CanonicalBelow root path) : ∃ names : List OsText, names ≠ [] ∧
    (∀ name ∈ names, IsName name ∧ IsUtf8 name) ∧ path = computeRemotePath (names.map .normal) root := by
  obtain ⟨parts, nonempty, valid, rfl⟩ := canonical.parts
  refine ⟨parts.map osText, by simpa using nonempty, ?_, ?_⟩
  · intro name inside
    obtain ⟨part, present, rfl⟩ := List.mem_map.mp inside
    exact ⟨(valid part present).isName, part, rfl⟩
  · have read : (parts.map osText).map toStringLossy = parts := by
      rw [List.map_map]
      exact (List.map_congr_left fun part _ => toStringLossy_osText part).trans (List.map_id parts)
    rw [computeRemotePath_names, read]

/-- The path of the engine is found again below the local base. -/
theorem computeRemotePath_stripPrefix (localBase : PathBuf) (canonical : CanonicalBelow root path) :
    ∃ relative, stripPrefix (computeLocalPath path root localBase) localBase = some relative ∧
      computeRemotePath relative root = path := by
  obtain ⟨names, nonempty, valid, rfl⟩ := canonical.entry
  refine ⟨names.map .normal, ?_, rfl⟩
  rw [computeLocalPath_computeRemotePath root localBase valid nonempty]
  exact stripPrefix_below localBase fun name inside => (valid name inside).1

end

/-- The paths of a relationship correspond exactly when every name of every entry can be read without loss. -/
theorem correspond_iff (localBase : PathBuf) (given : Text) (entries : Set AcceptedEntry) :
    Correspond localBase (normalizeRemotePath given) entries ↔ ∀ entry ∈ entries, entry.Readable := by
  constructor
  · intro correspond entry inside
    exact (computeLocalPath_eq_iff localBase _ entry).mp (correspond.returns entry inside)
  · intro readable
    constructor
    · intro entry inside
      exact (computeLocalPath_eq_iff localBase _ entry).mpr (readable entry inside)
    · intro first firstIn second secondIn same
      exact computeRemotePath_injective _ (fun name inside => ⟨first.valid name inside, readable first firstIn name inside⟩)
        (fun name inside => ⟨second.valid name inside, readable second secondIn name inside⟩) first.nonempty
        second.nonempty same
    · exact fun path => computeRemotePath_stripPrefix localBase

theorem fileUnder_valid (byte : UInt8) : ∀ name ∈ [[.invalid [byte]], osText (text "a.txt")], IsName name := by
  intro name inside
  cases List.mem_cons.mp inside with
  | inl first =>
      subst first
      exact ⟨by simp, by simp [dot], by simp [dot], by simp [slash], by simp [nul]⟩
  | inr last =>
      rw [List.mem_singleton.mp last]
      decide +kernel

/-- A file in a directory whose name is one byte. -/
def fileUnder (byte : UInt8) : AcceptedEntry where
  kind := .file
  names := [[.invalid [byte]], osText (text "a.txt")]
  nonempty := List.cons_ne_nil _ _
  valid := fileUnder_valid byte
  named := by
    intro _ name inside
    cases inside
    exact ⟨text "a.txt", rfl⟩

/-- Two files of different directories have one remote path, and neither comes back to its place. -/
theorem fileUnder_collide :
    (fileUnder 0xFF).names ≠ (fileUnder 0xFE).names ∧
      computeRemotePath (fileUnder 0xFF).relative (normalizeRemotePath (text "/docs")) =
        computeRemotePath (fileUnder 0xFE).relative (normalizeRemotePath (text "/docs")) ∧
      ¬ Correspond (ofText (osText (text "/home"))) (normalizeRemotePath (text "/docs"))
        {fileUnder 0xFF, fileUnder 0xFE} := by
  have apart : (fileUnder 0xFF).names ≠ (fileUnder 0xFE).names := by decide +kernel
  have same : computeRemotePath (fileUnder 0xFF).relative (normalizeRemotePath (text "/docs")) =
      computeRemotePath (fileUnder 0xFE).relative (normalizeRemotePath (text "/docs")) := by decide +kernel
  refine ⟨apart, same, ?_⟩
  intro correspond
  exact apart (correspond.distinct _ (Set.mem_insert ..) _ (Set.mem_insert_of_mem _ rfl) same)

end AeordbSync

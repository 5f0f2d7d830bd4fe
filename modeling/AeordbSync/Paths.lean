import AeordbSync.Relationships

namespace AeordbSync
open Characters OsPath

def remotePart : Component → Option Text
  | .normal part => some (toStringLossy part)
  | .parentDir => some (text "..")
  | .curDir => none
  | .rootDir => none

def computeRemotePath (relative : List Component) (remoteBase : Text) : Text :=
  trimEndMatches '/' remoteBase ++ '/' :: joinWith '/' (relative.filterMap remotePart)

def relativeText (relative : List Component) : OsText :=
  [slash].intercalate (relative.map Component.text)

def computeLegacySeparatorRemotePath (relative : List Component) (remoteBase : Text) : Option Text :=
  let legacyPath := trimEndMatches '/' remoteBase ++ '/' :: toStringLossy (relativeText relative)
  let normalizedPath := computeRemotePath relative remoteBase
  if legacyPath ≠ normalizedPath then some legacyPath else none

def isUnderRemoteBase (path remoteBase : Text) : Bool :=
  let base := trimEndMatches '/' remoteBase
  path == base || (base ++ ['/']).isPrefixOf path

/-- The prefix is removed without asking where a segment ends. -/
def computeLocalPath (remotePath remoteBase : Text) (localBase : PathBuf) : PathBuf :=
  let base := trimEndMatches '/' remoteBase
  let relative := if base <+: remotePath then remotePath.drop base.length else remotePath
  join localBase (osText (trimStartMatches '/' relative))

/-- The segments that remain are held from the last to the first. -/
def normalizedSegments (path : Text) : List Text :=
  ((path.splitOn '/').filter (· ≠ [])).foldl
    (fun segments segment =>
      if segment = text "." then segments
      else if segment = text ".." then segments.tail
      else segment :: segments) []

def normalizeRemotePathLikeEngine (path : Text) : Text :=
  let trimmed := trim (path.filter (· ≠ '\u0000'))
  if trimmed = [] then text "/"
  else '/' :: joinWith '/' (normalizedSegments trimmed).reverse

/-- A file name is the name of a remote entry when it can be read without loss. -/
def IsUtf8 (name : OsText) : Prop := ∃ s : Text, name = osText s

theorem toStringLossy_free {name : OsText} (valid : IsName name) : '/' ∉ toStringLossy name := by
  intro inside
  obtain ⟨unit, present, equal⟩ := List.mem_map.mp inside
  cases unit with
  | char c =>
      change c = '/' at equal
      subst c
      exact valid.2.2.2.1 present
  | invalid bytes =>
      change '\uFFFD' = '/' at equal
      exact absurd equal (by decide)

theorem filterMap_remotePart (names : List OsText) :
    (names.map Component.normal).filterMap remotePart = names.map toStringLossy := by
  simp [List.filterMap_map, Function.comp_def, remotePart]

theorem computeRemotePath_names (names : List OsText) (remoteBase : Text) :
    computeRemotePath (names.map .normal) remoteBase =
      trimEndMatches '/' remoteBase ++ '/' :: joinWith '/' (names.map toStringLossy) := by
  rw [computeRemotePath, filterMap_remotePart]

/-- Every path that a push computes lies strictly below the remote root. -/
theorem computeRemotePath_under (relative : List Component) (remoteBase : Text) :
    isUnderRemoteBase (computeRemotePath relative remoteBase) remoteBase = true := by
  simp [isUnderRemoteBase, computeRemotePath, List.isPrefixOf_iff_prefix]

theorem isUnderRemoteBase_iff {path remoteBase : Text} : isUnderRemoteBase path remoteBase = true ↔
    trimEndMatches '/' remoteBase ++ ['/'] <+: path ++ ['/'] := by
  rw [isUnderRemoteBase, Bool.or_eq_true, beq_iff_eq, List.isPrefixOf_iff_prefix, List.prefix_concat_iff,
    List.append_left_inj, eq_comm]

/-- A path below two roots tells that one root lies below the other. -/
theorem isUnderRemoteBase_nested {path first second : Text} (left : isUnderRemoteBase path first = true)
    (right : isUnderRemoteBase path second = true) :
    isUnderRemoteBase (trimEndMatches '/' second) first = true ∨
      isUnderRemoteBase (trimEndMatches '/' first) second = true := by
  rw [isUnderRemoteBase_iff] at left right ⊢
  rw [isUnderRemoteBase_iff]
  exact List.prefix_or_prefix_of_prefix left right

/-- What has been cut from the end of a path are separators. -/
theorem trimEndMatches_below (path : Text) : trimEndMatches '/' path ++ ['/'] <+: path ++ ['/'] := by
  have whole : trimEndMatches '/' path ++ path.rtakeWhile (· == '/') = path := List.rdropWhile_append_rtakeWhile
  have separators : ∀ c ∈ path.rtakeWhile (· == '/'), c = '/' := fun c inside => by
    simpa using List.mem_rtakeWhile_imp inside
  rcases cut : path.rtakeWhile (· == '/') with _ | ⟨c, rest⟩
  · rw [cut, List.append_nil] at whole
    rw [whole]
  · rw [cut] at whole separators
    obtain rfl := separators c (List.mem_cons_self ..)
    exact ⟨rest ++ ['/'], by rw [List.append_assoc, List.singleton_append, ← List.cons_append, ← List.append_assoc, whole]⟩

theorem isUnderRemoteBase_self (base : Text) : isUnderRemoteBase base base = true :=
  isUnderRemoteBase_iff.mpr (trimEndMatches_below base)

theorem isUnderRemoteBase_of_trimmed {path base : Text} (under : isUnderRemoteBase (trimEndMatches '/' path) base = true) :
    isUnderRemoteBase path base = true :=
  isUnderRemoteBase_iff.mpr ((isUnderRemoteBase_iff.mp under).trans (trimEndMatches_below path))

/-- The separator of the system is that of the remote, so no older form is ever met. -/
theorem computeLegacySeparatorRemotePath_names {names : List OsText} (remoteBase : Text) :
    computeLegacySeparatorRemotePath (names.map .normal) remoteBase = none := by
  have same : toStringLossy (relativeText (names.map .normal)) =
      joinWith '/' (names.map toStringLossy) := by
    have texts : (names.map Component.normal).map Component.text = names := by
      simp [Function.comp_def, Component.text]
    rw [relativeText, texts]
    induction names with
    | nil => rfl
    | cons first rest ih =>
        cases rest with
        | nil => simp [toStringLossy]
        | cons second more =>
            have tail := ih (by simp [Function.comp_def, Component.text])
            have split : [slash].intercalate (first :: second :: more) =
                first ++ slash :: [slash].intercalate (second :: more) := by
              simp [List.intercalate]
            rw [split, List.map_cons, List.map_cons, joinWith_cons, ← List.map_cons, ← tail]
            simp [toStringLossy, OsUnit.lossy, slash]
  simp [computeLegacySeparatorRemotePath, computeRemotePath_names, same]

theorem osText_toStringLossy {names : List OsText} (readable : ∀ name ∈ names, IsUtf8 name) :
    (names.map toStringLossy).map osText = names := by
  rw [List.map_map]
  refine (List.map_congr_left fun name inside => ?_).trans (List.map_id names)
  obtain ⟨s, rfl⟩ := readable name inside
  simp [toStringLossy_osText]

/-- Names that can be read without loss are recovered from the remote path. -/
theorem computeRemotePath_injective {first second : List OsText} (remoteBase : Text)
    (left : ∀ name ∈ first, IsName name ∧ IsUtf8 name) (right : ∀ name ∈ second, IsName name ∧ IsUtf8 name)
    (leftSome : first ≠ []) (rightSome : second ≠ [])
    (equal : computeRemotePath (first.map .normal) remoteBase =
      computeRemotePath (second.map .normal) remoteBase) : first = second := by
  rw [computeRemotePath_names, computeRemotePath_names] at equal
  have joined := (List.cons.inj (List.append_cancel_left equal)).2
  have free : ∀ (names : List OsText), (∀ name ∈ names, IsName name ∧ IsUtf8 name) →
      ∀ t ∈ names.map toStringLossy, '/' ∉ t := by
    intro names valid t inside
    obtain ⟨name, present, rfl⟩ := List.mem_map.mp inside
    exact toStringLossy_free (valid name present).1
  have parts := congrArg (List.splitOn '/') joined
  rw [splitOn_joinWith _ _ (free first left) (by simpa using leftSome),
    splitOn_joinWith _ _ (free second right) (by simpa using rightSome)] at parts
  rw [← osText_toStringLossy fun name inside => (left name inside).2, parts,
    osText_toStringLossy fun name inside => (right name inside).2]

/-- The local path of a pushed entry is made of the readings of its names. -/
theorem computeLocalPath_lossy {names : List OsText} (remoteBase : Text) (localBase : PathBuf)
    (valid : ∀ name ∈ names, IsName name) (nonempty : names ≠ []) :
    computeLocalPath (computeRemotePath (names.map .normal) remoteBase) remoteBase localBase =
      openEnd localBase ++ (names.map toStringLossy).map osText := by
  obtain ⟨first, rest, rfl⟩ := List.exists_cons_of_ne_nil nonempty
  have head := valid first (List.mem_cons_self ..)
  obtain ⟨c, tail, equal⟩ := List.exists_cons_of_ne_nil
    (show toStringLossy first ≠ [] by simpa [toStringLossy] using head.1)
  have different : c ≠ '/' := by
    intro same
    exact toStringLossy_free head (equal ▸ same ▸ List.mem_cons_self ..)
  have trimmed : trimStartMatches '/' ('/' :: joinWith '/' ((first :: rest).map toStringLossy)) =
      joinWith '/' ((first :: rest).map toStringLossy) := by
    rw [List.map_cons, equal]
    exact trimStartMatches_joinWith _ _ _ _ different
  have segments : ofText (osText (joinWith '/' ((first :: rest).map toStringLossy))) =
      ((first :: rest).map toStringLossy).map osText := by
    rw [osText_joinWith]
    apply List.splitOn_intercalate slash _ (by simp)
    intro name inside
    obtain ⟨read, present, rfl⟩ := List.mem_map.mp inside
    obtain ⟨other, named, rfl⟩ := List.mem_map.mp present
    have free := toStringLossy_free (valid other named)
    intro separator
    obtain ⟨d, member, same⟩ := List.mem_map.mp separator
    cases same
    exact free member
  have relative : isAbsolute (((first :: rest).map toStringLossy).map osText) = false := by
    rw [List.map_cons, List.map_cons, equal]
    rfl
  simp only [computeLocalPath, computeRemotePath_names, List.prefix_append, if_true, List.drop_left, trimmed, join,
    segments, relative]
  rfl

/-- The local path of a pushed entry is the path at which the walk met it. -/
theorem computeLocalPath_computeRemotePath {names : List OsText} (remoteBase : Text)
    (localBase : PathBuf) (valid : ∀ name ∈ names, IsName name ∧ IsUtf8 name) (nonempty : names ≠ []) :
    computeLocalPath (computeRemotePath (names.map .normal) remoteBase) remoteBase localBase =
      below localBase names := by
  rw [computeLocalPath_lossy remoteBase localBase (fun name inside => (valid name inside).1) nonempty,
    osText_toStringLossy fun name inside => (valid name inside).2]
  obtain ⟨first, rest, rfl⟩ := List.exists_cons_of_ne_nil nonempty
  rfl

end AeordbSync

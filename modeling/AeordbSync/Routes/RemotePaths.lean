import AeordbSync.Events.Listener
import AeordbSync.Reference

namespace AeordbSync
open Characters

namespace Routes

/-- The prefix is removed without asking where a segment ends. -/
def stripRemotePrefix (relationship : SyncRelationship) (absPath : Text) : Text :=
  let base := trimEndMatches '/' relationship.remotePath
  if base = [] then absPath
  else match stripStart base absPath with
    | some rest => if rest = [] then ['/'] else rest
    | none => absPath

def pathIsUnderRemoteRoot (relationship : SyncRelationship) (absPath : Text) : Bool :=
  let base := trimEndMatches '/' relationship.remotePath
  if base = [] then true
  else absPath == base || (base ++ ['/']).isPrefixOf absPath

end Routes

/-- A path of the renderer starts with one separator and uses no other one. -/
structure CanonicalRelative (path : Text) : Prop where
  rooted : path.head? = some '/'
  single : path.tail.head? ≠ some '/'
  unmixed : '\\' ∉ path

/-- The segments of the path start with those of the root. -/
def UnderRoot (relationship : SyncRelationship) (absPath : Text) : Prop :=
  trimEndMatches '/' relationship.remotePath ++ ['/'] <+: absPath ++ ['/']

/-- The path continues the last segment of the root. -/
def ExtendsRoot (relationship : SyncRelationship) (absPath : Text) : Prop :=
  trimEndMatches '/' relationship.remotePath ≠ [] ∧
    ∃ c rest, absPath = trimEndMatches '/' relationship.remotePath ++ c :: rest ∧ c ≠ '/'

/-- The routes and the event stream translate the paths of a relationship in the same way. -/
structure Translated (relationship : SyncRelationship) (relative absPath : Text) : Prop where
  returned : Routes.stripRemotePrefix relationship (Routes.computeRemotePath relationship relative) = relative
  outside : ¬ UnderRoot relationship absPath → Routes.stripRemotePrefix relationship absPath = absPath
  inside : UnderRoot relationship absPath →
    relationshipRelativePath relationship.remotePath absPath =
      some (Routes.stripRemotePrefix relationship absPath)
  member : Routes.pathIsUnderRemoteRoot relationship absPath = true ↔ UnderRoot relationship absPath
  streamed : (relationshipRelativePath relationship.remotePath absPath).isSome = true ↔
    UnderRoot relationship absPath

section

variable {relationship : SyncRelationship} {relative absPath rest : Text}

theorem stripStart_eq_some {start t rest : Text} : stripStart start t = some rest ↔ start ++ rest = t :=
  List.isPrefixOf?_eq_some_iff_append_eq

theorem stripStart_append (start rest : Text) : stripStart start (start ++ rest) = some rest :=
  stripStart_eq_some.mpr rfl

theorem stripStart_eq_none {start t : Text} (absent : ¬ start <+: t) : stripStart start t = none := by
  cases found : stripStart start t with
  | none => rfl
  | some rest => exact absurd ⟨rest, stripStart_eq_some.mp found⟩ absent

theorem stripRemotePrefix_of_root (empty : trimEndMatches '/' relationship.remotePath = []) :
    Routes.stripRemotePrefix relationship absPath = absPath := by
  simp [Routes.stripRemotePrefix, empty]

theorem stripRemotePrefix_of_base (nonempty : trimEndMatches '/' relationship.remotePath ≠ []) :
    Routes.stripRemotePrefix relationship (trimEndMatches '/' relationship.remotePath ++ rest) =
      if rest = [] then ['/'] else rest := by
  simp [Routes.stripRemotePrefix, nonempty, stripStart_append]

theorem stripRemotePrefix_of_not_prefix (other : ¬ trimEndMatches '/' relationship.remotePath <+: absPath) :
    Routes.stripRemotePrefix relationship absPath = absPath := by
  have nonempty : trimEndMatches '/' relationship.remotePath ≠ [] := by
    intro empty
    exact other (empty ▸ List.nil_prefix)
  simp [Routes.stripRemotePrefix, nonempty, stripStart_eq_none other]

/-- A path that starts with the root is shortened. -/
theorem stripRemotePrefix_ne (nonempty : trimEndMatches '/' relationship.remotePath ≠ [])
    (start : trimEndMatches '/' relationship.remotePath <+: absPath) :
    Routes.stripRemotePrefix relationship absPath ≠ absPath := by
  obtain ⟨rest, rfl⟩ := start
  rw [stripRemotePrefix_of_base nonempty]
  intro same
  split at same
  next none =>
    subst none
    rw [List.append_nil] at same
    have last := trimEndMatches_last '/' relationship.remotePath nonempty
    simp [← same] at last
  next =>
    have lengths := congrArg List.length same
    rw [List.length_append] at lengths
    have positive := List.length_pos_of_ne_nil nonempty
    omega

theorem underRoot_iff :
    UnderRoot relationship absPath ↔ absPath = trimEndMatches '/' relationship.remotePath ∨
      trimEndMatches '/' relationship.remotePath ++ ['/'] <+: absPath := by
  rw [UnderRoot, List.prefix_concat_iff, List.append_left_inj, eq_comm]

theorem underRoot_of_root (absolute : absPath.head? = some '/')
    (empty : trimEndMatches '/' relationship.remotePath = []) : UnderRoot relationship absPath := by
  obtain ⟨rest, rfl⟩ := List.head?_eq_some_iff.mp absolute
  exact ⟨rest ++ ['/'], by rw [empty]; simp⟩

theorem pathIsUnderRemoteRoot_iff (absolute : absPath.head? = some '/') :
    Routes.pathIsUnderRemoteRoot relationship absPath = true ↔ UnderRoot relationship absPath := by
  by_cases empty : trimEndMatches '/' relationship.remotePath = []
  · simp [Routes.pathIsUnderRemoteRoot, empty, underRoot_of_root absolute empty]
  · rw [underRoot_iff]
    simp [Routes.pathIsUnderRemoteRoot, empty, List.isPrefixOf_iff_prefix]

theorem relationshipRelativePath_of_root (absolute : absPath.head? = some '/')
    (empty : trimEndMatches '/' relationship.remotePath = []) :
    relationshipRelativePath relationship.remotePath absPath = some absPath := by
  simp [relationshipRelativePath, absolute, empty]

theorem relationshipRelativePath_of_base (absolute : absPath.head? = some '/')
    (nonempty : trimEndMatches '/' relationship.remotePath ≠ []) :
    relationshipRelativePath relationship.remotePath absPath =
      if absPath = trimEndMatches '/' relationship.remotePath then some ['/']
      else (stripStart (trimEndMatches '/' relationship.remotePath ++ ['/']) absPath).map ('/' :: ·) := by
  have last := trimEndMatches_last '/' relationship.remotePath nonempty
  have nonroot : trimEndMatches '/' relationship.remotePath ≠ ['/'] := by
    intro root
    simp [root] at last
  rw [relationshipRelativePath, if_pos absolute, if_neg (not_or.mpr ⟨nonempty, nonroot⟩)]

/-- The event stream finds the relative path of the routes for a path below the root. -/
theorem relationshipRelativePath_eq (absolute : absPath.head? = some '/')
    (inside : UnderRoot relationship absPath) : relationshipRelativePath relationship.remotePath absPath =
      some (Routes.stripRemotePrefix relationship absPath) := by
  by_cases empty : trimEndMatches '/' relationship.remotePath = []
  · rw [relationshipRelativePath_of_root absolute empty, stripRemotePrefix_of_root empty]
  · rw [relationshipRelativePath_of_base absolute empty]
    by_cases same : absPath = trimEndMatches '/' relationship.remotePath
    · have stripped := @stripRemotePrefix_of_base relationship [] empty
      rw [List.append_nil, if_pos rfl] at stripped
      rw [if_pos same, same, stripped]
    · obtain ⟨rest, rfl⟩ := (underRoot_iff.mp inside).resolve_left same
      rw [if_neg same, stripStart_append, List.append_assoc, stripRemotePrefix_of_base empty]
      rfl

theorem relationshipRelativePath_isSome_iff (absolute : absPath.head? = some '/') :
    (relationshipRelativePath relationship.remotePath absPath).isSome = true ↔ UnderRoot relationship absPath := by
  constructor
  · intro streamed
    by_cases empty : trimEndMatches '/' relationship.remotePath = []
    · exact underRoot_of_root absolute empty
    · rw [relationshipRelativePath_of_base absolute empty] at streamed
      rw [underRoot_iff]
      split at streamed
      next same => exact Or.inl same
      next =>
        obtain ⟨path, found⟩ := Option.isSome_iff_exists.mp streamed
        obtain ⟨rest, cut, -⟩ := Option.map_eq_some_iff.mp found
        exact Or.inr ⟨rest, stripStart_eq_some.mp cut⟩
  · intro inside
    rw [relationshipRelativePath_eq absolute inside]
    rfl

/-- A path that starts with the root and does not lie below it continues the last segment of the root. -/
theorem extendsRoot_iff (absolute : absPath.head? = some '/') : ExtendsRoot relationship absPath ↔
    trimEndMatches '/' relationship.remotePath <+: absPath ∧ ¬ UnderRoot relationship absPath := by
  constructor
  · intro ⟨nonempty, c, rest, whole, different⟩
    refine ⟨⟨c :: rest, whole.symm⟩, ?_⟩
    rw [underRoot_iff, whole, List.prefix_append_right_inj]
    simp [eq_comm, different]
  · intro ⟨⟨rest, whole⟩, outside⟩
    refine ⟨fun empty => outside (underRoot_of_root absolute empty), ?_⟩
    rw [underRoot_iff, ← whole, List.prefix_append_right_inj, not_or] at outside
    cases rest with
    | nil => exact absurd (List.append_nil _) outside.1
    | cons c more =>
        refine ⟨c, more, whole.symm, ?_⟩
        intro same
        exact outside.2 ⟨more, by rw [same]; rfl⟩

theorem replaceBackslashes_self {path : Text} (unmixed : '\\' ∉ path) : replaceBackslashes path = path := by
  refine (List.map_congr_left fun c inside => ?_).trans (List.map_id path)
  have different : c ≠ '\\' := fun same => unmixed (same ▸ inside)
  simp [different]

/-- The path that the renderer gave comes back. -/
theorem stripRemotePrefix_computeRemotePath (relationship : SyncRelationship)
    (canonical : CanonicalRelative relative) :
    Routes.stripRemotePrefix relationship (Routes.computeRemotePath relationship relative) = relative := by
  obtain ⟨rest, rfl⟩ := List.head?_eq_some_iff.mp canonical.rooted
  have trimmed : trimStartMatches '/' ('/' :: rest) = rest := by
    rw [trimStartMatches_cons_self]
    cases rest with
    | nil => rfl
    | cons c more =>
        apply trimStartMatches_of_head
        intro same
        exact canonical.single (by rw [same]; rfl)
  rw [computeRemotePath_eq, replaceBackslashes_self canonical.unmixed, trimmed]
  by_cases empty : trimEndMatches '/' relationship.remotePath = []
  · rw [stripRemotePrefix_of_root empty, empty, List.nil_append]
  · rw [stripRemotePrefix_of_base empty, if_neg (List.cons_ne_nil _ _)]

/-- The translations agree but for a path that continues the last segment of the root. -/
theorem translated_iff (relationship : SyncRelationship) (relative absPath : Text)
    (canonical : CanonicalRelative relative) (absolute : absPath.head? = some '/') :
    Translated relationship relative absPath ↔ ¬ ExtendsRoot relationship absPath := by
  rw [extendsRoot_iff absolute]
  constructor
  · intro translated ⟨start, outside⟩
    have nonempty : trimEndMatches '/' relationship.remotePath ≠ [] := by
      intro empty
      exact outside (underRoot_of_root absolute empty)
    exact stripRemotePrefix_ne nonempty start (translated.outside outside)
  · intro apart
    constructor
    · exact stripRemotePrefix_computeRemotePath relationship canonical
    · intro outside
      exact stripRemotePrefix_of_not_prefix fun start => apart ⟨start, outside⟩
    · exact relationshipRelativePath_eq absolute
    · exact pathIsUnderRemoteRoot_iff absolute
    · exact relationshipRelativePath_isSome_iff absolute

end

/-- A path below the root of the relationship is translated. -/
theorem translated_docs :
    Translated (docsRelationship none) (text "/notes/a.txt") (text "/docs/b.txt") := by
  apply (translated_iff (docsRelationship none) (text "/notes/a.txt") (text "/docs/b.txt")
    ⟨by decide +kernel, by decide +kernel, by decide +kernel⟩ (by decide +kernel)).mpr
  intro ⟨_, c, rest, whole, different⟩
  have base : trimEndMatches '/' (docsRelationship none).remotePath = text "/docs" := by decide +kernel
  rw [base] at whole
  exact different (List.cons.inj (@List.append_cancel_left _ (text "/docs") _ _ whole)).1.symm

/-- A path of a sibling whose name starts with that of the root loses a part of its first name. -/
theorem stripRemotePrefix_sibling :
    ¬ UnderRoot (docsRelationship none) (text "/docs2/a.txt") ∧
      Routes.stripRemotePrefix (docsRelationship none) (text "/docs2/a.txt") = text "2/a.txt" ∧
      relationshipRelativePath (docsRelationship none).remotePath (text "/docs2/a.txt") = none ∧
      ¬ Translated (docsRelationship none) (text "/notes/a.txt") (text "/docs2/a.txt") := by
  have outside : ¬ UnderRoot (docsRelationship none) (text "/docs2/a.txt") := by
    intro below
    have base : trimEndMatches '/' (docsRelationship none).remotePath = text "/docs" := by decide +kernel
    rw [UnderRoot, base] at below
    exact absurd below (by decide +kernel)
  refine ⟨outside, by decide +kernel, by decide +kernel, ?_⟩
  intro translated
  exact absurd (translated.outside outside) (by decide +kernel)

end AeordbSync

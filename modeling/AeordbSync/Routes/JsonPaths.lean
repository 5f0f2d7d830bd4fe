import AeordbSync.Routes.RemotePaths

namespace AeordbSync
open Characters

namespace Routes

variable (relationship : SyncRelationship)

/-- A text becomes the path of the renderer, and another value stays as it is. -/
def stripString : Json → Json
  | .string path => .string (stripRemotePrefix relationship path)
  | json => json

/-- The value of a field. The elements of an array of paths are not walked. -/
def stripField (key : Text) (value walked : Json) : Json :=
  match value with
  | .string path => if key = text "path" then .string (stripRemotePrefix relationship path) else walked
  | .array items => if key = text "paths" then .array (items.map (stripString relationship)) else walked
  | _ => walked

mutual

def stripPathsInJson : Json → Json
  | .object fields => .object (stripFields fields)
  | .array items => .array (stripItems items)
  | json => json

def stripItems : List Json → List Json
  | [] => []
  | item :: rest => stripPathsInJson item :: stripItems rest

def stripFields : Json.Fields → Json.Fields
  | [] => []
  | ⟨key, value⟩ :: rest => ⟨key, stripField relationship key value (stripPathsInJson value)⟩ :: stripFields rest

end

end Routes

/-- What the place of a value makes of its texts. -/
inductive PathRole where
  | plain
  | path
  | paths
  | element
  deriving DecidableEq

namespace PathRole

def ofKey (key : Text) : PathRole :=
  if key = text "path" then path else if key = text "paths" then paths else plain

/-- The place of the elements of an array. -/
def items : PathRole → PathRole
  | paths => element
  | _ => plain

def isPath : PathRole → Bool
  | path => true
  | element => true
  | _ => false

end PathRole

section

variable (relationship : SyncRelationship)

mutual

/-- Each text in the place of a path becomes a path of the renderer, and nothing else changes. -/
def translateAt (role : PathRole) : Json → Json
  | .string t => if role.isPath = true then .string (Routes.stripRemotePrefix relationship t) else .string t
  | .array items => .array (translateItems role.items items)
  | .object fields => .object (translateFields fields)
  | json => json

def translateItems (role : PathRole) : List Json → List Json
  | [] => []
  | item :: rest => translateAt role item :: translateItems role rest

def translateFields : Json.Fields → Json.Fields
  | [] => []
  | ⟨key, value⟩ :: rest => ⟨key, translateAt (.ofKey key) value⟩ :: translateFields rest

end

end

mutual

/-- The texts of a value in the places of paths. -/
def pathsAt (role : PathRole) : Json → List Text
  | .string t => if role.isPath = true then [t] else []
  | .array items => pathsOfItems role.items items
  | .object fields => pathsOfFields fields
  | _ => []

def pathsOfItems (role : PathRole) : List Json → List Text
  | [] => []
  | item :: rest => pathsAt role item ++ pathsOfItems role rest

def pathsOfFields : Json.Fields → List Text
  | [] => []
  | ⟨key, value⟩ :: rest => pathsAt (.ofKey key) value ++ pathsOfFields rest

end

/-- The paths inside the elements of an array of paths, and not the elements themselves. -/
def pathsInside : List Json → List Text
  | [] => []
  | .string _ :: rest => pathsInside rest
  | item :: rest => pathsAt .element item ++ pathsInside rest

def missedAt (key : Text) (value : Json) (walked : List Text) : List Text :=
  match value with
  | .array items => if key = text "paths" then pathsInside items else walked
  | _ => walked

mutual

/-- The paths that lie inside an element of an array of paths that the walk reaches. -/
def missedPaths : Json → List Text
  | .array items => missedInItems items
  | .object fields => missedInFields fields
  | _ => []

def missedInItems : List Json → List Text
  | [] => []
  | item :: rest => missedPaths item ++ missedInItems rest

def missedInFields : Json.Fields → List Text
  | [] => []
  | ⟨key, value⟩ :: rest => missedAt key value (missedPaths value) ++ missedInFields rest

end

/-- The text of the path starts with that of the root. -/
def StartsWithRoot (relationship : SyncRelationship) (path : Text) : Prop :=
  trimEndMatches '/' relationship.remotePath ≠ [] ∧ trimEndMatches '/' relationship.remotePath <+: path

section

variable {relationship : SyncRelationship}

theorem stripRemotePrefix_eq_self (path : Text) :
    Routes.stripRemotePrefix relationship path = path ↔ ¬ StartsWithRoot relationship path := by
  constructor
  · intro same ⟨nonempty, start⟩
    exact stripRemotePrefix_ne nonempty start same
  · intro apart
    by_cases empty : trimEndMatches '/' relationship.remotePath = []
    · exact stripRemotePrefix_of_root empty
    · exact stripRemotePrefix_of_not_prefix fun start => apart ⟨empty, start⟩

mutual

theorem translateAt_eq_self (role : PathRole) : ∀ json : Json, translateAt relationship role json = json ↔
    ∀ path ∈ pathsAt role json, ¬ StartsWithRoot relationship path
  | .null => by simp [translateAt, pathsAt]
  | .bool _ => by simp [translateAt, pathsAt]
  | .number _ => by simp [translateAt, pathsAt]
  | .string t => by
      cases placed : role.isPath <;> simp [translateAt, pathsAt, placed, stripRemotePrefix_eq_self]
  | .array items => by
      rw [translateAt, pathsAt, Json.array.injEq]
      exact translateItems_eq_self role.items items
  | .object fields => by
      rw [translateAt, pathsAt, Json.object.injEq]
      exact translateFields_eq_self fields

theorem translateItems_eq_self (role : PathRole) : ∀ items : List Json,
    translateItems relationship role items = items ↔
      ∀ path ∈ pathsOfItems role items, ¬ StartsWithRoot relationship path
  | [] => by simp [translateItems, pathsOfItems]
  | item :: rest => by
      rw [translateItems, pathsOfItems, List.cons.injEq, List.forall_mem_append, translateAt_eq_self role item,
        translateItems_eq_self role rest]

theorem translateFields_eq_self : ∀ fields : Json.Fields, translateFields relationship fields = fields ↔
    ∀ path ∈ pathsOfFields fields, ¬ StartsWithRoot relationship path
  | [] => by simp [translateFields, pathsOfFields]
  | ⟨key, value⟩ :: rest => by
      rw [translateFields, pathsOfFields, List.cons.injEq, List.forall_mem_append, Sigma.mk.injEq,
        translateFields_eq_self rest, ← translateAt_eq_self (.ofKey key) value]
      simp

end

/-- Only the texts among the elements of an array of paths are translated. -/
theorem stripString_items (items : List Json) :
    items.map (Routes.stripString relationship) = translateItems relationship .element items ↔
      ∀ path ∈ pathsInside items, ¬ StartsWithRoot relationship path := by
  induction items with
  | nil => simp [translateItems, pathsInside]
  | cons item rest ih =>
      rw [List.map_cons, translateItems, List.cons.injEq, ih]
      cases item with
      | string t => simp [Routes.stripString, translateAt, PathRole.isPath, pathsInside]
      | _ =>
          rw [pathsInside, List.forall_mem_append, ← translateAt_eq_self, eq_comm]
          · rfl
          · simp

theorem ofKey_items {key : Text} (other : key ≠ text "paths") : (PathRole.ofKey key).items = .plain := by
  unfold PathRole.ofKey
  rw [if_neg other]
  split <;> rfl

theorem ofKey_isPath (key : Text) : (PathRole.ofKey key).isPath = decide (key = text "path") := by
  unfold PathRole.ofKey
  split
  next same => simp [PathRole.isPath, same]
  next other => split <;> simp [PathRole.isPath, other]

/-- What the walk makes of a field, given what it makes of the value. -/
theorem stripField_eq (key : Text) {value : Json}
    (walked : Routes.stripPathsInJson relationship value = translateAt relationship .plain value ↔
      ∀ path ∈ missedPaths value, ¬ StartsWithRoot relationship path) :
    Routes.stripField relationship key value (Routes.stripPathsInJson relationship value) =
        translateAt relationship (.ofKey key) value ↔
      ∀ path ∈ missedAt key value (missedPaths value), ¬ StartsWithRoot relationship path := by
  cases value with
  | string t =>
      rw [translateAt, ofKey_isPath]
      by_cases same : key = text "path" <;>
        simp [same, Routes.stripField, Routes.stripPathsInJson, missedAt, missedPaths]
  | array items =>
      by_cases same : key = text "paths"
      · have role : (PathRole.ofKey key).items = .element := by
          subst same
          decide
        rw [translateAt, role, Routes.stripField, missedAt, if_pos same, if_pos same, Json.array.injEq]
        exact stripString_items items
      · have plain : PathRole.plain.items = .plain := rfl
        rw [translateAt, plain] at walked
        rw [translateAt, ofKey_items same, Routes.stripField, missedAt, if_neg same, if_neg same]
        exact walked
  | object fields =>
      rw [translateAt] at walked ⊢
      exact walked
  | _ => exact walked

mutual

theorem stripPathsInJson_eq : ∀ json : Json,
    Routes.stripPathsInJson relationship json = translateAt relationship .plain json ↔
      ∀ path ∈ missedPaths json, ¬ StartsWithRoot relationship path
  | .null => by simp [Routes.stripPathsInJson, translateAt, missedPaths]
  | .bool _ => by simp [Routes.stripPathsInJson, translateAt, missedPaths]
  | .number _ => by simp [Routes.stripPathsInJson, translateAt, missedPaths]
  | .string _ => by simp [Routes.stripPathsInJson, translateAt, missedPaths, PathRole.isPath]
  | .array items => by
      rw [Routes.stripPathsInJson, translateAt, missedPaths, Json.array.injEq]
      exact stripItems_eq items
  | .object fields => by
      rw [Routes.stripPathsInJson, translateAt, missedPaths, Json.object.injEq]
      exact stripFields_eq fields

theorem stripItems_eq : ∀ items : List Json,
    Routes.stripItems relationship items = translateItems relationship .plain items ↔
      ∀ path ∈ missedInItems items, ¬ StartsWithRoot relationship path
  | [] => by simp [Routes.stripItems, translateItems, missedInItems]
  | item :: rest => by
      rw [Routes.stripItems, translateItems, missedInItems, List.cons.injEq, List.forall_mem_append,
        stripPathsInJson_eq item, stripItems_eq rest]

theorem stripFields_eq : ∀ fields : Json.Fields,
    Routes.stripFields relationship fields = translateFields relationship fields ↔
      ∀ path ∈ missedInFields fields, ¬ StartsWithRoot relationship path
  | [] => by simp [Routes.stripFields, translateFields, missedInFields]
  | ⟨key, value⟩ :: rest => by
      have field := stripField_eq key (stripPathsInJson_eq value)
      rw [Routes.stripFields, translateFields, missedInFields, List.cons.injEq, List.forall_mem_append,
        stripFields_eq rest, ← field, Sigma.mk.injEq]
      simp

end

/-- Every path of a response is translated, and nothing else, exactly when no path of the root lies inside an
element of an array of paths. -/
theorem stripPathsInJson_complete (relationship : SyncRelationship) (json : Json) :
    Routes.stripPathsInJson relationship json = translateAt relationship .plain json ↔
      ∀ path ∈ missedPaths json, ¬ StartsWithRoot relationship path :=
  stripPathsInJson_eq json

end

/-- A response whose paths are given by records. -/
def recordedPaths : Json := .object [⟨text "paths", .array [.object [⟨text "path", .string (text "/docs/a.txt")⟩]]⟩]

theorem stripPathsInJson_recordedPaths :
    Routes.stripPathsInJson (docsRelationship none) recordedPaths = recordedPaths ∧
      translateAt (docsRelationship none) .plain recordedPaths =
        .object [⟨text "paths", .array [.object [⟨text "path", .string (text "/a.txt")⟩]]⟩] ∧
      Routes.stripPathsInJson (docsRelationship none) recordedPaths ≠
        translateAt (docsRelationship none) .plain recordedPaths := by
  have stripped : Routes.stripRemotePrefix (docsRelationship none) (text "/docs/a.txt") = text "/a.txt" := by
    decide +kernel
  have translated : translateAt (docsRelationship none) .plain recordedPaths =
      .object [⟨text "paths", .array [.object [⟨text "path", .string (text "/a.txt")⟩]]⟩] := by
    rw [← stripped]
    rfl
  refine ⟨rfl, translated, ?_⟩
  intro same
  have untouched := (stripPathsInJson_eq recordedPaths).mp same (text "/docs/a.txt") (List.mem_singleton.mpr rfl)
  exact untouched ⟨by decide +kernel, by decide +kernel⟩

end AeordbSync

import Mathlib.Data.List.AList
import AeordbSync.Library.Characters

open Characters

/-- An object keeps its fields in some order. -/
inductive Json where
  | null
  | bool (value : Bool)
  | number (value : Int)
  | string (value : Text)
  | array (items : List Json)
  | object (fields : List (Sigma fun _ : Text => Json))

namespace Json

abbrev Fields := List (Sigma fun _ : Text => Json)

/-- Only an object has fields. -/
def fields : Json → Fields
  | .object fields => fields
  | _ => []

def string? : Json → Option Text
  | .string value => some value
  | _ => none

def number? : Json → Option Int
  | .number value => some value
  | _ => none

def nat? : Json → Option Nat
  | .number value => if 0 ≤ value then some value.toNat else none
  | _ => none

/-- A signed number of 64 bits. -/
def int64? : Json → Option Int
  | .number value => if -2 ^ 63 ≤ value ∧ value < 2 ^ 63 then some value else none
  | _ => none

def get (json : Json) (key : Text) : Option Json := json.fields.dlookup key

/-- A record is written as an object, or as the list of its first fields. -/
def isRecord (arity : Nat) : Json → Bool
  | .object _ => true
  | .array items => decide (items.length ≤ arity)
  | _ => false

def member (index : Nat) (key : Text) : Json → Option Json
  | .object fields => fields.dlookup key
  | .array items => items[index]?
  | _ => none

/-- A member that is absent or null counts as not given. -/
def optional {α : Type} (decode : Json → Option α) : Option Json → Option (Option α)
  | none => some none
  | some .null => some none
  | some json => (decode json).map some

/-- A patch merges the fields of the upper levels and replaces what lies beyond them. A null removes. -/
def merge : Nat → Json → Json → Json
  | 0, _, patch => patch
  | levels + 1, target, .object patch =>
      .object (patch.foldl (fun fields entry => match entry.2 with
        | .null => fields.kerase entry.1
        | value => fields.kinsert entry.1 (merge levels ((fields.dlookup entry.1).getD .null) value))
        target.fields)
  | _ + 1, _, patch => patch

/-- One field of a patch. -/
def mergeField (levels : Nat) (fields : Fields) (key : Text) (value : Json) : Fields :=
  match value with
  | .null => fields.kerase key
  | value => fields.kinsert key (merge levels ((fields.dlookup key).getD .null) value)

theorem merge_object (levels : Nat) (target : Json) (patch : Fields) :
    merge (levels + 1) target (.object patch) =
      .object (patch.foldl (fun fields entry => mergeField levels fields entry.1 entry.2) target.fields) := by
  rfl

theorem nodupKeys_mergeField {levels : Nat} {fields : Fields} (nodup : fields.NodupKeys) (key : Text)
    (value : Json) : (mergeField levels fields key value).NodupKeys := by
  unfold mergeField
  split
  · exact nodup.kerase key
  · exact List.kinsert_nodupKeys key _ nodup

theorem nodupKeys_merge (levels : Nat) {target : Json} (patch : Fields) (nodup : target.fields.NodupKeys) :
    (merge (levels + 1) target (.object patch)).fields.NodupKeys := by
  rw [merge_object]
  show (patch.foldl _ target.fields).NodupKeys
  generalize target.fields = fields at nodup
  induction patch generalizing fields with
  | nil => exact nodup
  | cons entry rest ih => exact ih _ (nodupKeys_mergeField nodup entry.1 entry.2)

/-- What a patch with distinct names makes of each field. -/
theorem get_merge (levels : Nat) {target : Json} {patch : Fields} (nodup : target.fields.NodupKeys)
    (distinct : patch.NodupKeys) (key : Text) :
    (merge (levels + 1) target (.object patch)).get key = match patch.dlookup key with
      | none => target.get key
      | some .null => none
      | some value => some (merge levels ((target.get key).getD .null) value) := by
  rw [merge_object]
  show (patch.foldl _ target.fields).dlookup key = match patch.dlookup key with
      | none => target.fields.dlookup key
      | some .null => none
      | some value => some (merge levels ((target.fields.dlookup key).getD .null) value)
  generalize target.fields = fields at nodup
  induction patch generalizing fields with
  | nil => rfl
  | cons entry rest ih =>
      obtain ⟨name, value⟩ := entry
      have fresh : name ∉ rest.keys := List.notMem_keys_of_nodupKeys_cons distinct
      rw [List.foldl_cons, ih (List.nodupKeys_of_nodupKeys_cons distinct) _ (nodupKeys_mergeField nodup _ _)]
      by_cases same : key = name
      · subst same
        rw [List.dlookup_eq_none.mpr fresh, List.dlookup_cons_eq]
        unfold mergeField
        cases value with
        | null => exact List.dlookup_kerase key nodup
        | _ => exact List.dlookup_kinsert fields
      · have other : (mergeField levels fields name value).dlookup key = fields.dlookup key := by
          unfold mergeField
          split
          · exact List.dlookup_kerase_ne same
          · exact List.dlookup_kinsert_ne same
        have skipped : (⟨name, value⟩ :: rest : Fields).dlookup key = rest.dlookup key :=
          List.dlookup_cons_ne rest _ same
        rw [skipped, other]

end Json

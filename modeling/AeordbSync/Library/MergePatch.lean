import Mathlib.Data.List.AList
import AeordbSync.Library.Characters

open Characters

/-- A JSON value over some numbers. An object keeps its fields in some order. -/
inductive Document (ν : Type) where
  | null
  | bool (value : Bool)
  | number (value : ν)
  | string (value : Text)
  | array (items : List (Document ν))
  | object (fields : List (Sigma fun _ : Text => Document ν))

namespace Document

abbrev Fields (ν : Type) := List (Sigma fun _ : Text => Document ν)

variable {ν α : Type}

/-- Only an object has fields. -/
def fields : Document ν → Fields ν
  | .object fields => fields
  | _ => []

/-- No object of the value names a field twice. -/
inductive Distinct : Document ν → Prop
  | null : Distinct .null
  | bool (value : Bool) : Distinct (.bool value)
  | number (value : ν) : Distinct (.number value)
  | string (value : Text) : Distinct (.string value)
  | array {items : List (Document ν)} (inner : ∀ item ∈ items, Distinct item) : Distinct (.array items)
  | object {fields : Fields ν} (nodup : fields.NodupKeys) (inner : ∀ entry ∈ fields, Distinct entry.2) :
      Distinct (.object fields)

theorem Distinct.nodupKeys {patch : Fields ν} (distinct : Distinct (.object patch)) : patch.NodupKeys := by
  cases distinct with
  | object nodup _ => exact nodup

theorem Distinct.value {patch : Fields ν} (distinct : Distinct (.object patch)) {key : Text} {value : Document ν}
    (listed : patch.dlookup key = some value) : Distinct value := by
  cases distinct with
  | object nodup inner => exact inner ⟨key, value⟩ (List.of_mem_dlookup listed)

/-- A pair of a patch either removes its name from the target or gives it a value. -/
def assign (target : Fields ν) (name : Text) (value result : Document ν) : Fields ν :=
  match value with
  | .null => target.kerase name
  | _ => target.kinsert name result

mutual

/-- This is the `MergePatch` function of RFC 7396. -/
def mergePatch (target : Option (Document ν)) : Document ν → Document ν
  | .object patch => .object (mergeFields ((target.map fields).getD []) patch)
  | patch => patch

/-- The loop of the function over the pairs of the patch. -/
def mergeFields (target : Fields ν) : Fields ν → Fields ν
  | [] => target
  | ⟨name, value⟩ :: rest =>
      mergeFields (assign target name value (mergePatch (target.dlookup name) value)) rest

end

/-- What one field becomes, of what it is and what the patch says of it. -/
def patched (target : Option (Document ν)) : Option (Document ν) → Option (Document ν)
  | none => target
  | some .null => none
  | some value => some (mergePatch target value)

/-- A target without a value counts as one that is no object. -/
theorem mergePatch_null (patch : Document ν) : mergePatch (some .null) patch = mergePatch none patch := by
  cases patch <;> simp only [mergePatch]
  rfl

theorem nodupKeys_assign {target : Fields ν} (nodup : target.NodupKeys) (name : Text) (value result : Document ν) :
    (assign target name value result).NodupKeys := by
  unfold assign
  split
  · exact nodup.kerase name
  · exact List.kinsert_nodupKeys name _ nodup

theorem dlookup_assign {target : Fields ν} (nodup : target.NodupKeys) (name : Text) (value : Document ν) :
    (assign target name value (mergePatch (target.dlookup name) value)).dlookup name =
      patched (target.dlookup name) (some value) := by
  cases value with
  | null => exact List.dlookup_kerase name nodup
  | _ => exact List.dlookup_kinsert target

theorem dlookup_assign_ne {target : Fields ν} {key name : Text} (other : key ≠ name) (value result : Document ν) :
    (assign target name value result).dlookup key = target.dlookup key := by
  unfold assign
  split
  · exact List.dlookup_kerase_ne other
  · exact List.dlookup_kinsert_ne other

/-- The order of the pairs does not matter: each field becomes what the patch says of it. -/
theorem dlookup_mergeFields {target patch : Fields ν} (nodup : target.NodupKeys) (distinct : patch.NodupKeys)
    (key : Text) : (mergeFields target patch).dlookup key = patched (target.dlookup key) (patch.dlookup key) := by
  induction patch generalizing target with
  | nil => rfl
  | cons entry rest ih =>
      obtain ⟨name, value⟩ := entry
      have fresh : name ∉ rest.keys := List.notMem_keys_of_nodupKeys_cons distinct
      rw [mergeFields, ih (nodupKeys_assign nodup name value _) (List.nodupKeys_of_nodupKeys_cons distinct)]
      by_cases same : key = name
      · subst same
        rw [List.dlookup_eq_none.mpr fresh, List.dlookup_cons_eq, dlookup_assign nodup]
        rfl
      · have skipped : (⟨name, value⟩ :: rest : Fields ν).dlookup key = rest.dlookup key :=
          List.dlookup_cons_ne rest _ same
        rw [skipped, dlookup_assign_ne same]

/-- A record is written as an object, or as the list of its first fields. -/
def isRecord (arity : Nat) : Document ν → Bool
  | .object _ => true
  | .array items => decide (items.length ≤ arity)
  | _ => false

def member (index : Nat) (key : Text) : Document ν → Option (Document ν)
  | .object fields => fields.dlookup key
  | .array items => items[index]?
  | _ => none

/-- A typed value as a document. What a patch makes of one value does not depend on which value a reader took
from an earlier application of it. -/
structure Codec (ν α : Type) where
  encode : α → Document ν
  decode : Document ν → Option α
  decode_encode : ∀ a, decode (encode a) = some a
  settles : ∀ {a b : α} {patch : Document ν}, patch.Distinct →
    decode (mergePatch (some (encode a)) patch) = some b → decode (mergePatch (some (encode b)) patch) = some b

namespace Codec

/-- A value that no object can stand for is replaced or kept. -/
def scalar (encode : α → Document ν) (decode : Document ν → Option α)
    (decode_encode : ∀ a, decode (encode a) = some a) (refuses : ∀ fields, decode (.object fields) = none) :
    Codec ν α where
  encode := encode
  decode := decode
  decode_encode := decode_encode
  settles := by
    intro a b patch _ read
    cases patch with
    | object patch =>
        rw [mergePatch, refuses] at read
        cases read
    | _ => exact read

/-- A value that may be missing is written as a null. -/
def optional (decode : Document ν → Option α) : Document ν → Option (Option α)
  | .null => some none
  | document => (decode document).map some

/-- A member that is absent has a value of its own. -/
def field (codec : Codec ν α) (absent : α) : Option (Document ν) → Option α
  | none => some absent
  | some document => codec.decode document

theorem field_encode (codec : Codec ν α) (absent a : α) : codec.field absent (some (codec.encode a)) = some a :=
  codec.decode_encode a

/-- A field settles whatever the patch says of it. -/
theorem field_settles (codec : Codec ν α) {absent a b : α} {patch : Option (Document ν)}
    (distinct : ∀ value, patch = some value → value.Distinct)
    (read : codec.field absent (patched (some (codec.encode a)) patch) = some b) :
    codec.field absent (patched (some (codec.encode b)) patch) = some b := by
  cases patch with
  | none => exact codec.field_encode absent b
  | some value =>
      have inner := distinct value rfl
      cases value with
      | null => exact read
      | _ => exact codec.settles inner read

/-- A member of an object settles when each of the two targets holds it. -/
theorem member_settles (codec : Codec ν α) {absent a b : α} {target after patch : Fields ν} {key : Text}
    (distinct : (Document.object patch).Distinct) (first : target.NodupKeys) (second : after.NodupKeys)
    (held : target.dlookup key = some (codec.encode a)) (next : after.dlookup key = some (codec.encode b))
    (read : codec.field absent ((mergeFields target patch).dlookup key) = some b) :
    codec.field absent ((mergeFields after patch).dlookup key) = some b := by
  have names := distinct.nodupKeys
  rw [dlookup_mergeFields first names, held] at read
  rw [dlookup_mergeFields second names, next]
  exact codec.field_settles (fun value listed => distinct.value listed) read

end Codec

end Document

import Mathlib.Data.List.Dedup
import AeordbSync.Library.Grouping
import AeordbSync.State.Engine

namespace AeordbSync
open Characters

/-- A state database that is held in memory. -/
abbrev MemoryState := AList fun _ : Text => Json

namespace MemoryState

def insertOne (s : MemoryState) (file : Text × Json) : MemoryState := s.insert file.1 file.2

def patchOne (s : MemoryState) (patch : Text × Json) : MemoryState :=
  s.insert patch.1 (((s.lookup patch.1).getD (.object [])).merge 2 patch.2)

/-- A path that ends with a separator names a directory. -/
def present (s : MemoryState) (path : Text) : Bool :=
  if path.getLast? = some '/' then s.keys.any fun key => path.isPrefixOf key
  else (s.lookup path).isSome

def entryIn (directory key : Text) : Option Text :=
  if directory <+: key then
    let name := key.drop directory.length
    if name ≠ [] ∧ '/' ∉ name then some name else none
  else none

theorem entryIn_eq_some {directory key name : Text} (found : entryIn directory key = some name) :
    key = directory ++ name ∧ '/' ∉ name := by
  unfold entryIn at found
  split at found
  next inside =>
    obtain ⟨rest, rfl⟩ := inside
    simp only [List.drop_left] at found
    split at found
    next fits =>
      cases found
      exact ⟨rfl, fits.2⟩
    · cases found
  · cases found

theorem entryIn_append {directory name : Text} (nonempty : name ≠ []) (flat : '/' ∉ name) :
    entryIn directory (directory ++ name) = some name := by
  simp [entryIn, nonempty, flat]

theorem mem_keys_of_isSome {s : MemoryState} {path : Text} (stored : (s.lookup path).isSome = true) :
    path ∈ s.keys := AList.lookup_isSome.mp stored

theorem lookup_insertAll (files : List (Text × Json)) (s : MemoryState) (path : Text)
    (distinct : (files.map Prod.fst).Nodup) :
    (files.foldl insertOne s).lookup path = (files.lookup path).or (s.lookup path) := by
  induction files generalizing s with
  | nil => rfl
  | cons file rest ih =>
      obtain ⟨name, json⟩ := file
      obtain ⟨fresh, later⟩ := List.nodup_cons.mp distinct
      rw [List.foldl_cons, ih _ later]
      by_cases same : path = name
      · subst same
        have absent : rest.lookup path = none := by
          apply Grouping.lookup_eq_none
          rintro other inside rfl
          exact fresh (List.mem_map.mpr ⟨other, inside, rfl⟩)
        rw [absent, Option.none_or, List.lookup_cons_self, Option.some_or]
        exact AList.lookup_insert s
      · rw [List.lookup_cons, beq_eq_false_iff_ne.mpr same]
        congr 1
        exact AList.lookup_insert_ne same

theorem lookup_patchAll (patches : List (Text × Json)) (s : MemoryState) (path : Text)
    (distinct : (patches.map Prod.fst).Nodup) :
    (patches.foldl patchOne s).lookup path = match patches.lookup path with
      | none => s.lookup path
      | some value => some (((s.lookup path).getD (.object [])).merge 2 value) := by
  induction patches generalizing s with
  | nil => rfl
  | cons patch rest ih =>
      obtain ⟨name, json⟩ := patch
      obtain ⟨fresh, later⟩ := List.nodup_cons.mp distinct
      rw [List.foldl_cons, ih _ later]
      by_cases same : path = name
      · subst same
        have absent : rest.lookup path = none := by
          apply Grouping.lookup_eq_none
          rintro other inside rfl
          exact fresh (List.mem_map.mpr ⟨other, inside, rfl⟩)
        rw [absent, List.lookup_cons_self]
        exact AList.lookup_insert s
      · have other : (patchOne s (name, json)).lookup path = s.lookup path := AList.lookup_insert_ne same
        rw [List.lookup_cons, beq_eq_false_iff_ne.mpr same, other]

theorem any_erase {α : Type} [DecidableEq α] {keys : List α} {path : α} {p : α → Bool} (outside : p path = false) :
    (keys.erase path).any p = keys.any p := by
  induction keys with
  | nil => rfl
  | cons key rest ih =>
      by_cases same : key = path
      · subst same
        rw [List.erase_cons_head, List.any_cons, outside, Bool.false_or]
      · rw [List.erase_cons_tail (by simpa using same), List.any_cons, List.any_cons, ih]

theorem filterMap_erase {α β : Type} [DecidableEq α] {keys : List α} {path : α} {f : α → Option β}
    (outside : f path = none) :
    (keys.erase path).filterMap f = keys.filterMap f := by
  induction keys with
  | nil => rfl
  | cons key rest ih =>
      by_cases same : key = path
      · subst same
        rw [List.erase_cons_head, List.filterMap_cons_none outside]
      · rw [List.erase_cons_tail (by simpa using same), List.filterMap_cons, List.filterMap_cons, ih]

/-- It keeps the laws of a state database. -/
def engine : StateEngine MemoryState where
  file s path := s.lookup path
  present := present
  listing s directory := (s.keys.filterMap (entryIn directory)).dedup
  put files s := files.foldl insertOne s
  patch patches s := patches.foldl patchOne s
  erase path s := s.erase path
  present_document := by
    rintro s path ⟨front, rfl⟩
    have last : (front ++ text ".json").getLast? = some 'n' := by
      rw [List.getLast?_append]
      rfl
    rw [present, last]
    rfl
  present_directory := by
    intro s directory name ends _ stored
    rw [present, if_pos ends, List.any_eq_true]
    exact ⟨directory ++ name, mem_keys_of_isSome stored, by simp⟩
  nodup_listing := fun s directory => List.nodup_dedup _
  slash_notMem_listing := by
    intro s directory name inside
    rw [List.mem_dedup, List.mem_filterMap] at inside
    obtain ⟨key, -, found⟩ := inside
    exact (entryIn_eq_some found).2
  mem_listing := by
    intro s directory name _ nonempty flat stored
    rw [List.mem_dedup, List.mem_filterMap]
    exact ⟨directory ++ name, mem_keys_of_isSome stored, entryIn_append nonempty flat⟩
  file_put := fun files s path distinct => lookup_insertAll files s path distinct
  file_patch := fun patches s path distinct => lookup_patchAll patches s path distinct
  file_erase := by
    intro s path other
    split
    next same =>
      subst same
      exact AList.lookup_erase ..
    next differs => exact AList.lookup_erase_ne differs
  present_erase := by
    intro s path directory ends outside
    rw [present, present, if_pos ends, if_pos ends, AList.keys_erase]
    apply any_erase
    rw [Bool.eq_false_iff, ne_eq, List.isPrefixOf_iff_prefix]
    exact outside
  listing_erase := by
    intro s path directory _ outside
    rw [AList.keys_erase, filterMap_erase]
    exact if_neg outside

end MemoryState

end AeordbSync

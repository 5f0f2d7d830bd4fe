import Mathlib.Data.List.AList
import AeordbSync.Library.OsPath

namespace FileSystem
open Characters OsPath

inductive IoErrorKind where
  | notFound
  | alreadyExists
  | notADirectory
  | isADirectory
  | invalidInput
  | filesystemLoop
  | permissionDenied
  | other
  deriving DecidableEq

structure IoError where
  kind : IoErrorKind
  text : Text
  deriving DecidableEq

namespace IoError

def notFound : IoError := ⟨.notFound, "No such file or directory (os error 2)".toList⟩

def alreadyExists : IoError := ⟨.alreadyExists, "File exists (os error 17)".toList⟩

def notADirectory : IoError := ⟨.notADirectory, "Not a directory (os error 20)".toList⟩

def isADirectory : IoError := ⟨.isADirectory, "Is a directory (os error 21)".toList⟩

def invalidInput : IoError := ⟨.invalidInput, "Invalid argument (os error 22)".toList⟩

def filesystemLoop : IoError :=
  ⟨.filesystemLoop, "Too many levels of symbolic links (os error 40)".toList⟩

def permissionDenied : IoError :=
  ⟨.permissionDenied, "Operation not permitted (os error 1)".toList⟩

end IoError

/-- The names from the root of the file system to an entry. -/
abbrev Location := List OsText

inductive Node where
  | file (content : Bytes) (modified : Int)
  | symlink (target : OsText) (modified : Int)
  | directory
  | special
  deriving DecidableEq

def Node.isFile : Node → Bool
  | .file .. => true
  | _ => false

def Node.isSymlink : Node → Bool
  | .symlink .. => true
  | _ => false

def Node.content? : Node → Option Bytes
  | .file content _ => some content
  | _ => none

def Node.time? : Node → Option Int
  | .file _ time => some time
  | _ => none

/-- Every entry has a name and lies in a directory, and the program runs in a directory. -/
structure Tree where
  nodes : AList (fun _ : Location => Node)
  workingDirectory : Location
  root : nodes.lookup [] = some .directory
  closed : ∀ l name, nodes.lookup (l ++ [name]) ≠ none → nodes.lookup l = some .directory
  named : ∀ l name, nodes.lookup (l ++ [name]) ≠ none → IsName name
  working : nodes.lookup workingDirectory = some .directory

namespace Tree

/-- A tree with nothing but its root. -/
def bare : Tree where
  nodes := (∅ : AList fun _ : Location => Node).insert [] .directory
  workingDirectory := []
  root := AList.lookup_insert _
  closed := by
    intro l name present
    rw [AList.lookup_insert_ne (by simp)] at present
    exact absurd rfl present
  named := by
    intro l name present
    rw [AList.lookup_insert_ne (by simp)] at present
    exact absurd rfl present
  working := AList.lookup_insert _

def node (t : Tree) (l : Location) : Option Node := t.nodes.lookup l

/-- An entry other than a directory can be placed here. -/
def Placeable (t : Tree) (l : Location) : Prop :=
  l ≠ [] ∧ t.node l.dropLast = some .directory ∧ t.node l ≠ some .directory ∧
    ∀ name ∈ l.getLast?, IsName name

instance (t : Tree) (l : Location) : Decidable (t.Placeable l) :=
  inferInstanceAs (Decidable (_ ∧ _ ∧ _ ∧ _))

def put (t : Tree) (l : Location) (node : Node) : Tree :=
  if placeable : t.Placeable l then
    { nodes := t.nodes.insert l node
      workingDirectory := t.workingDirectory
      root := by rw [AList.lookup_insert_ne placeable.1.symm]; exact t.root
      closed := by
        intro q name present
        have parent : t.nodes.lookup q = some .directory := by
          by_cases same : q ++ [name] = l
          · have inside := placeable.2.1
            rwa [← same, List.dropLast_concat] at inside
          · rw [AList.lookup_insert_ne same] at present
            exact t.closed q name present
        by_cases same : q = l
        · exact absurd (same ▸ parent) placeable.2.2.1
        · rwa [AList.lookup_insert_ne same]
      named := by
        intro q name present
        by_cases same : q ++ [name] = l
        · exact placeable.2.2.2 name (by simp [← same])
        · rw [AList.lookup_insert_ne same] at present
          exact t.named q name present
      working := by
        have elsewhere : t.workingDirectory ≠ l := fun same => placeable.2.2.1 (same ▸ t.working)
        rw [AList.lookup_insert_ne elsewhere]
        exact t.working }
  else t

/-- The entries are placed in the order of the list. -/
def ofList (entries : List (Location × Node)) : Tree :=
  entries.foldl (fun t entry => t.put entry.1 entry.2) bare

def erase (t : Tree) (l : Location) : Tree :=
  if leaf : t.node l ≠ some .directory then
    { nodes := t.nodes.erase l
      workingDirectory := t.workingDirectory
      root := by
        have notRoot : ([] : Location) ≠ l := by
          rintro rfl
          exact leaf t.root
        rw [AList.lookup_erase_ne notRoot]
        exact t.root
      closed := by
        intro q name present
        have old : t.nodes.lookup (q ++ [name]) ≠ none := by
          by_cases same : q ++ [name] = l
          · rw [same, AList.lookup_erase] at present
            exact absurd rfl present
          · rwa [AList.lookup_erase_ne same] at present
        have parent := t.closed q name old
        by_cases same : q = l
        · exact absurd (same ▸ parent) leaf
        · rwa [AList.lookup_erase_ne same]
      named := by
        intro q name present
        by_cases same : q ++ [name] = l
        · rw [same, AList.lookup_erase] at present
          exact absurd rfl present
        · rw [AList.lookup_erase_ne same] at present
          exact t.named q name present
      working := by
        have elsewhere : t.workingDirectory ≠ l := fun same => leaf (same ▸ t.working)
        rw [AList.lookup_erase_ne elsewhere]
        exact t.working }
  else t

theorem node_put (t : Tree) {l : Location} {node : Node} (placeable : t.Placeable l)
    (q : Location) : (t.put l node).node q = if q = l then some node else t.node q := by
  rw [put, dif_pos placeable]
  split
  next same =>
    subst q
    exact AList.lookup_insert _
  next other => exact AList.lookup_insert_ne other

theorem node_put_ne (t : Tree) {l q : Location} {node : Node} (other : q ≠ l) :
    (t.put l node).node q = t.node q := by
  by_cases placeable : t.Placeable l
  · rw [node_put t placeable, if_neg other]
  · rw [put, dif_neg placeable]

theorem node_erase (t : Tree) {l : Location} (leaf : t.node l ≠ some .directory) (q : Location) :
    (t.erase l).node q = if q = l then none else t.node q := by
  rw [erase, dif_pos leaf]
  split
  next same =>
    subst q
    exact AList.lookup_erase ..
  next other => exact AList.lookup_erase_ne other

theorem node_erase_ne (t : Tree) {l q : Location} (other : q ≠ l) :
    (t.erase l).node q = t.node q := by
  by_cases leaf : t.node l ≠ some .directory
  · rw [node_erase t leaf, if_neg other]
  · rw [erase, dif_neg leaf]

@[simp] theorem put_workingDirectory (t : Tree) (l : Location) (node : Node) :
    (t.put l node).workingDirectory = t.workingDirectory := by
  unfold put
  split <;> rfl

@[simp] theorem erase_workingDirectory (t : Tree) (l : Location) :
    (t.erase l).workingDirectory = t.workingDirectory := by
  unfold erase
  split <;> rfl

theorem mem_keys (t : Tree) {l : Location} : l ∈ t.nodes.keys ↔ t.node l ≠ none := by
  rw [← AList.mem_keys, ← AList.lookup_isSome, Option.isSome_iff_ne_none]
  rfl

theorem node_root (t : Tree) : t.node [] = some .directory := t.root

theorem node_workingDirectory (t : Tree) : t.node t.workingDirectory = some .directory := t.working

theorem node_parent (t : Tree) {l : Location} {name : OsText} (present : t.node (l ++ [name]) ≠ none) :
    t.node l = some .directory :=
  t.closed l name present

/-- Every entry above an existing entry is a directory. -/
theorem node_above (t : Tree) {l : Location} {names : List OsText} (below : names ≠ [])
    (present : t.node (l ++ names) ≠ none) : t.node l = some .directory := by
  induction names using List.reverseRecOn with
  | nil => exact absurd rfl below
  | append_singleton front last ih =>
      rw [← List.append_assoc] at present
      have parent := t.node_parent present
      by_cases empty : front = []
      · rwa [empty, List.append_nil] at parent
      · exact ih empty (by rw [parent]; exact Option.some_ne_none _)

theorem names_valid (t : Tree) {l : Location} {names : List OsText}
    (present : t.node (l ++ names) ≠ none) : ∀ name ∈ names, IsName name := by
  induction names using List.reverseRecOn with
  | nil => intro name inside; cases inside
  | append_singleton front last ih =>
      intro name inside
      rw [← List.append_assoc] at present
      rcases List.mem_append.mp inside with early | final
      · exact ih (by rw [t.node_parent present]; exact Option.some_ne_none _) name early
      · rw [List.mem_singleton.mp final]
        exact t.named _ _ present

/-- The names of the entries of one directory. -/
def children (t : Tree) (l : Location) : List OsText :=
  t.nodes.keys.filterMap fun q => if q ≠ [] ∧ q.dropLast = l then q.getLast? else none

theorem mem_children (t : Tree) (l : Location) (name : OsText) :
    name ∈ t.children l ↔ t.node (l ++ [name]) ≠ none := by
  have present : t.node (l ++ [name]) ≠ none ↔ l ++ [name] ∈ t.nodes.keys := by
    rw [node, ← Option.isSome_iff_ne_none, AList.lookup_isSome]
    exact Iff.rfl
  rw [present, children, List.mem_filterMap]
  constructor
  · rintro ⟨q, inside, found⟩
    split at found
    next holds =>
      have equal := List.dropLast_append_getLast? name found
      rw [holds.2] at equal
      rw [equal]
      exact inside
    next => cases found
  · intro inside
    exact ⟨l ++ [name], inside, by simp⟩

theorem children_nodup (t : Tree) (l : Location) : (t.children l).Nodup := by
  refine List.Nodup.filterMap ?_ t.nodes.keys_nodup
  intro first second name left right
  split at left
  next leftHolds =>
    split at right
    next rightHolds =>
      have leftEqual := List.dropLast_append_getLast? name left
      have rightEqual := List.dropLast_append_getLast? name right
      rw [← leftEqual, ← rightEqual, leftHolds.2, rightHolds.2]
    next => cases right
  next => cases left

def depth (t : Tree) : Nat := (t.nodes.keys.map List.length).foldr max 0

theorem length_le_depth (t : Tree) {l : Location} (present : t.node l ≠ none) :
    l.length ≤ t.depth := by
  have inside : l ∈ t.nodes.keys := by
    rw [node, ← Option.isSome_iff_ne_none, AList.lookup_isSome] at present
    exact present
  unfold depth
  generalize t.nodes.keys = keys at inside
  induction keys with
  | nil => cases inside
  | cons first rest ih =>
      simp only [List.map_cons, List.foldr_cons]
      rcases List.mem_cons.mp inside with rfl | later
      · exact le_max_left ..
      · exact (ih later).trans (le_max_right ..)

end Tree
end FileSystem

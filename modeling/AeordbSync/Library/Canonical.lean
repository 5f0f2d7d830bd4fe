import AeordbSync.Library.FileCalls

namespace FileSystem
open Characters OsPath

/-- The path that names every directory from the root. -/
def absolute (l : Location) : PathBuf := if l = [] then [[], []] else [] :: l

namespace Tree

def pathExists (t : Tree) (p : PathBuf) : Bool :=
  match t.metadata true p with
  | .error _ => false
  | .ok _ => true

/-- The canonical path of an entry that exists. -/
def canonicalize (t : Tree) (p : PathBuf) : Except IoError PathBuf :=
  match t.resolve true p with
  | .error e => .error e
  | .ok l => match t.node l with
    | none => .error .notFound
    | some _ => .ok (absolute l)

end Tree

namespace Tree

/-- What a walk that follows symlinks arrives at is no symlink and lies in a directory. -/
structure Settled (node : Location → Option Node) (l : Location) : Prop where
  directory : node l.dropLast = some .directory
  followed : ∀ target time, node l ≠ some (.symlink target time)

variable {t : Tree}

theorem node_dropLast {l : Location} (directory : t.node l = some .directory) :
    t.node l.dropLast = some .directory := by
  rcases List.eq_nil_or_concat l with rfl | ⟨front, name, rfl⟩
  · exact directory
  · rw [List.concat_eq_append] at directory ⊢
    rw [List.dropLast_concat]
    apply @node_parent t _ name
    rw [directory]
    exact Option.some_ne_none _

theorem Settled.of_directory {l : Location} (directory : t.node l = some .directory) :
    Settled t.node l := by
  refine ⟨node_dropLast directory, fun target time link => ?_⟩
  rw [directory] at link
  cases link

/-- The walk keeps to directories until its last segment. -/
theorem walk_settled {restart : Location → PathBuf → Except IoError Location}
    (again : ∀ l p q, t.node l = some .directory → restart l p = .ok q → Settled t.node q)
    {l q : Location} {p : PathBuf} (directory : t.node l = some .directory)
    (reached : walk t.node restart true l p = .ok q) : Settled t.node q := by
  induction p generalizing l with
  | nil =>
      cases reached
      exact Settled.of_directory directory
  | cons segment rest ih =>
      unfold walk at reached
      split at reached
      · exact ih directory reached
      · split at reached
        · exact ih (node_dropLast directory) reached
        · split at reached
          next absent =>
            split at reached
            · cases reached
              refine ⟨by rwa [List.dropLast_concat], fun target time link => ?_⟩
              rw [absent] at link
              cases link
            · cases reached
          next inside => exact ih inside reached
          next target time link =>
            rw [if_neg (by simp)] at reached
            split at reached
            · cases reached
            · exact again _ _ _ directory reached
          next node notDirectory notLink present =>
            split at reached
            · cases reached
              refine ⟨by rwa [List.dropLast_concat], fun target time link => ?_⟩
              rw [present] at link
              exact notLink target time (Option.some.inj link)
            · cases reached

theorem resolveFrom_settled (budget : Nat) {l q : Location} {p : PathBuf}
    (directory : t.node l = some .directory) (reached : resolveFrom t.node true budget l p = .ok q) :
    Settled t.node q := by
  induction budget generalizing l p q with
  | zero => cases reached
  | succ budget ih =>
      unfold resolveFrom at reached
      refine walk_settled (fun _ _ _ => ih) ?_ reached
      split
      · exact t.node_root
      · exact directory

theorem resolve_settled {p : PathBuf} {l : Location} (reached : t.resolve true p = .ok l) :
    Settled t.node l := by
  unfold resolve at reached
  split at reached
  · cases reached
  · split at reached
    · cases reached
    · exact resolveFrom_settled _ t.node_workingDirectory reached

/-- The canonical path of an entry leads to the entry itself. -/
theorem resolve_absolute {l : Location} {node : Node} (present : t.node l = some node)
    (followed : ∀ target time, t.node l ≠ some (.symlink target time)) :
    t.resolve true (absolute l) = .ok l := by
  have exist : t.node ([] ++ l) ≠ none := by
    rw [List.nil_append, present]
    exact Option.some_ne_none _
  have valid := t.names_valid exist
  have legal : ¬ ∃ segment ∈ absolute l, nul ∈ segment := by
    rintro ⟨segment, inside, bad⟩
    unfold absolute at inside
    split at inside
    · simp at inside
      rw [inside] at bad
      cases bad
    · rcases List.mem_cons.mp inside with rfl | later
      · cases bad
      · exact (valid segment later).2.2.2.2 bad
  have real : ¬ (absolute l = [] ∨ absolute l = [[]]) := by
    unfold absolute
    split <;> simp [*]
  rw [resolve, if_neg legal, if_neg real]
  show walk t.node (resolveFrom t.node true 40) true (if isAbsolute (absolute l) then [] else _) _ = _
  unfold absolute
  split
  next root =>
    rw [root]
    rfl
  next below =>
    obtain ⟨first, rest, rfl⟩ := List.exists_cons_of_ne_nil below
    have start : walk t.node (resolveFrom t.node true 40) true [] ([] :: first :: rest) =
        walk t.node (resolveFrom t.node true 40) true [] (first :: rest) := by
      rw [walk, if_pos (Or.inl rfl)]
    rw [if_pos (show isAbsolute ([] :: first :: rest) = true from rfl), start]
    rw [walk_names t.node _ true [] valid, List.nil_append]
    · intro front back split _ more
      rw [split, ← List.append_assoc] at exist
      exact t.node_above more exist
    · intro _ target time
      exact followed target time

/-- An entry exists when its path has a canonical form. -/
theorem pathExists_iff {p : PathBuf} : t.pathExists p = true ↔ ∃ c, t.canonicalize p = .ok c := by
  unfold pathExists canonicalize metadata
  cases t.resolve true p with
  | error error => simp
  | ok l => cases node : t.node l <;> simp [node]

theorem canonicalize_eq_ok {p c : PathBuf} (found : t.canonicalize p = .ok c) :
    ∃ l node, t.resolve true p = .ok l ∧ t.node l = some node ∧ c = absolute l := by
  unfold canonicalize at found
  split at found
  · cases found
  next l reached =>
    split at found
    · cases found
    next node present =>
      cases found
      exact ⟨l, node, reached, present, rfl⟩

/-- A canonical path is its own canonical form. -/
theorem canonicalize_canonical {p c : PathBuf} (found : t.canonicalize p = .ok c) :
    t.canonicalize c = .ok c := by
  obtain ⟨l, node, reached, present, rfl⟩ := canonicalize_eq_ok found
  rw [canonicalize, resolve_absolute present (resolve_settled reached).followed]
  simp only [present]

end Tree
end FileSystem

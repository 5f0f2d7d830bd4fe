import AeordbSync.Library.Confinement

namespace FileSystem
open Characters OsPath

/-- No walk goes on from here. -/
def Leaf : Option Node → Prop
  | none | some (.file ..) | some .special => True
  | some .directory | some (.symlink ..) => False

namespace Tree

/-- The trees differ only where no walk goes on. -/
structure SameWays (t t' : Tree) : Prop where
  workingDirectory : t'.workingDirectory = t.workingDirectory
  nodes : ∀ q, t'.node q = t.node q ∨ (Leaf (t.node q) ∧ Leaf (t'.node q))

variable {t t' : Tree}

theorem SameWays.symm (same : SameWays t t') : SameWays t' t :=
  ⟨same.workingDirectory.symm, fun q => (same.nodes q).imp Eq.symm And.symm⟩

/-- One entry has changed, and no walk goes on from it before or after. -/
theorem sameWays_of_leaf {l : Location} (workingDirectory : t'.workingDirectory = t.workingDirectory)
    (elsewhere : ∀ q, q ≠ l → t'.node q = t.node q) (before : Leaf (t.node l)) (after : Leaf (t'.node l)) :
    SameWays t t' := by
  refine ⟨workingDirectory, fun q => ?_⟩
  by_cases here : q = l
  · subst here
    exact Or.inr ⟨before, after⟩
  · exact Or.inl (elsewhere q here)

section Walk

variable {node other : Location → Option Node} {restart again : Location → PathBuf → Except IoError Location}
  {follow : Bool} {l q : Location} {p : PathBuf}

theorem walk_sameWays (nodes : ∀ q, other q = node q ∨ (Leaf (node q) ∧ Leaf (other q)))
    (restarted : ∀ l p, restart l p = .ok q → again l p = .ok q)
    (reached : walk node restart follow l p = .ok q) : walk other again follow l p = .ok q := by
  induction p generalizing l with
  | nil => exact reached
  | cons segment rest ih =>
      unfold walk at reached ⊢
      split at reached
      next idle => exact (if_pos idle).trans (ih reached)
      next moves =>
        rw [if_neg moves]
        split at reached
        next up => exact (if_pos up).trans (ih reached)
        next down =>
          rw [if_neg down]
          rcases nodes (l ++ [segment]) with same | ⟨before, after⟩
          · rw [same]
            split at reached
            · exact reached
            · exact ih reached
            · split at reached
              next last => exact (if_pos last).trans reached
              next more =>
                rw [if_neg more]
                split at reached
                · cases reached
                next some =>
                  rw [if_neg some]
                  exact restarted _ _ reached
            · exact reached
          · have ended : rest = [] ∧ q = l ++ [segment] := by
              split at reached
              · split at reached
                next last =>
                  cases reached
                  exact ⟨last, rfl⟩
                next => cases reached
              next present =>
                rw [present] at before
                cases before
              next present =>
                rw [present] at before
                cases before
              next =>
                split at reached
                next last =>
                  cases reached
                  exact ⟨last, rfl⟩
                next => cases reached
            obtain ⟨rfl, rfl⟩ := ended
            split
            · rfl
            next present =>
              rw [present] at after
              cases after
            next present =>
              rw [present] at after
              cases after
            · rfl

theorem resolveFrom_sameWays (nodes : ∀ q, other q = node q ∨ (Leaf (node q) ∧ Leaf (other q))) (budget : Nat)
    (reached : resolveFrom node follow budget l p = .ok q) : resolveFrom other follow budget l p = .ok q := by
  induction budget generalizing l p with
  | zero => cases reached
  | succ budget ih => exact walk_sameWays nodes (fun _ _ => ih) reached

end Walk

/-- What a path leads to stays the same. -/
theorem SameWays.resolve (same : SameWays t t') {follow : Bool} {p : PathBuf} {q : Location}
    (reached : t.resolve follow p = .ok q) : t'.resolve follow p = .ok q := by
  unfold Tree.resolve at reached ⊢
  split at reached
  · cases reached
  next clean =>
    rw [if_neg clean]
    split at reached
    · cases reached
    next some =>
      rw [if_neg some, same.workingDirectory]
      exact resolveFrom_sameWays same.nodes _ reached

section Entry

variable {node : Location → Option Node} {restart again : Location → PathBuf → Except IoError Location}
  {l q : Location} {p : PathBuf}

/-- A walk that follows its last symlink passes an entry that it would end at otherwise. -/
theorem walk_entry (restarted : ∀ l p, restart l p = .ok q → ∃ m, again l p = .ok m)
    (reached : walk node restart true l p = .ok q) : ∃ m, walk node again false l p = .ok m := by
  induction p generalizing l with
  | nil => exact ⟨l, rfl⟩
  | cons segment rest ih =>
      unfold walk at reached ⊢
      split at reached
      next idle =>
        rw [if_pos idle]
        exact ih reached
      next moves =>
        rw [if_neg moves]
        split at reached
        next up =>
          rw [if_pos up]
          exact ih reached
        next down =>
          rw [if_neg down]
          split at reached
          · exact ⟨_, reached⟩
          · exact ih reached
          next target time link =>
            rw [if_neg (by simp)] at reached
            by_cases last : rest = []
            · exact ⟨_, if_pos ⟨last, rfl⟩⟩
            · rw [if_neg fun both => last both.1]
              split at reached
              · cases reached
              next some =>
                rw [if_neg some]
                exact restarted _ _ reached
          · exact ⟨_, reached⟩

theorem resolveFrom_entry (budget : Nat) (reached : resolveFrom node true budget l p = .ok q) :
    ∃ m, resolveFrom node false budget l p = .ok m := by
  induction budget generalizing l p with
  | zero => cases reached
  | succ budget ih => exact walk_entry (fun _ _ => ih) reached

/-- A walk that ends at no symlink ends there as well when it follows symlinks. -/
theorem walk_unlinked (plain : ∀ target time, node q ≠ some (.symlink target time))
    (restarted : ∀ l p, restart l p = .ok q → again l p = .ok q)
    (reached : walk node restart false l p = .ok q) : walk node again true l p = .ok q := by
  induction p generalizing l with
  | nil => exact reached
  | cons segment rest ih =>
      unfold walk at reached ⊢
      split at reached
      next idle => exact (if_pos idle).trans (ih reached)
      next moves =>
        rw [if_neg moves]
        split at reached
        next up => exact (if_pos up).trans (ih reached)
        next down =>
          rw [if_neg down]
          split at reached
          · exact reached
          · exact ih reached
          next target time link =>
            rw [if_neg (by simp)]
            split at reached
            · cases reached
              exact absurd link (plain target time)
            · split at reached
              · cases reached
              next some =>
                rw [if_neg some]
                exact restarted _ _ reached
          · exact reached

theorem resolveFrom_unlinked (plain : ∀ target time, node q ≠ some (.symlink target time)) (budget : Nat)
    (reached : resolveFrom node false budget l p = .ok q) : resolveFrom node true budget l p = .ok q := by
  induction budget generalizing l p with
  | zero => cases reached
  | succ budget ih => exact walk_unlinked plain (fun _ _ => ih) reached

end Entry

/-- A path that can be followed names an entry. -/
theorem resolve_entry {p : PathBuf} {q : Location} (reached : t.resolve true p = .ok q) :
    ∃ m, t.resolve false p = .ok m := by
  unfold resolve at reached ⊢
  split at reached
  · cases reached
  next clean =>
    rw [if_neg clean]
    split at reached
    · cases reached
    next some =>
      rw [if_neg some]
      exact resolveFrom_entry _ reached

/-- A path that names no symlink is followed to what it names. -/
theorem resolve_unlinked {p : PathBuf} {m : Location} (plain : ∀ target time, t.node m ≠ some (.symlink target time))
    (named : t.resolve false p = .ok m) : t.resolve true p = .ok m := by
  unfold resolve at named ⊢
  split at named
  · cases named
  next clean =>
    rw [if_neg clean]
    split at named
    · cases named
    next some =>
      rw [if_neg some]
      exact resolveFrom_unlinked plain _ named

/-- An entry of a walk: it is no empty name and leads neither here nor up. -/
def Steps (segment : OsText) : Prop := ¬ (segment = [] ∨ segment = dot) ∧ segment ≠ dot ++ dot

section Sibling

variable {restart : Location → PathBuf → Except IoError Location} {l q : Location} {front : PathBuf}
  {segment : OsText}

/-- The last segment names an entry of one directory, whatever it is. -/
def Names (t : Tree) (walked : PathBuf → Except IoError Location) (front : PathBuf) (segment : OsText) (q : Location) :
    Prop :=
  ∃ d, t.node d = some .directory ∧ q = d ++ [segment] ∧
    ∀ other, Steps other → walked (front ++ [other]) = .ok (d ++ [other])

theorem walk_last {other : OsText} (steps : Steps other) : walk t.node restart false l [other] = .ok (l ++ [other]) := by
  unfold walk
  rw [if_neg steps.1, if_neg steps.2]
  split
  · rfl
  · rfl
  · exact if_pos ⟨rfl, rfl⟩
  · rfl

theorem walk_names_last (steps : Steps segment)
    (restarted : ∀ l front, t.node l = some .directory → front ≠ [] → restart l (front ++ [segment]) = .ok q →
      t.Names (restart l) front segment q)
    (directory : t.node l = some .directory)
    (reached : walk t.node restart false l (front ++ [segment]) = .ok q) :
    t.Names (walk t.node restart false l) front segment q := by
  induction front generalizing l with
  | nil =>
      rw [List.nil_append, walk_last steps] at reached
      cases reached
      exact ⟨l, directory, rfl, fun other steps => walk_last steps⟩
  | cons first rest ih =>
      have more : ∀ other : OsText, rest ++ [other] ≠ [] := fun other => List.append_ne_nil_of_right_ne_nil _ (by simp)
      unfold Names
      rw [List.cons_append] at reached
      simp only [List.cons_append]
      unfold walk at reached ⊢
      split at reached
      next idle =>
        simp only [if_pos idle]
        exact ih directory reached
      next moves =>
        simp only [if_neg moves]
        split at reached
        next up =>
          simp only [if_pos up]
          exact ih (node_dropLast directory) reached
        next down =>
          simp only [if_neg down]
          split at reached
          next => rw [if_neg (more segment)] at reached; cases reached
          next inside => exact ih inside reached
          next target time link =>
            rw [if_neg fun both => more segment both.1] at reached
            split at reached
            · cases reached
            next some =>
              rw [← List.append_assoc] at reached
              obtain ⟨d, known, equal, every⟩ := restarted l _ directory (ofText_ne some rest).1 reached
              refine ⟨d, known, equal, fun other steps => ?_⟩
              rw [if_neg fun both => more other both.1, if_neg some, ← List.append_assoc]
              exact every other steps
          next => rw [if_neg (more segment)] at reached; cases reached

end Sibling

theorem isAbsolute_concat (front : PathBuf) (segment other : OsText) :
    isAbsolute (front ++ [segment]) = isAbsolute (front ++ [other]) := by
  rcases front with _ | ⟨a, rest⟩
  · cases segment <;> cases other <;> rfl
  · cases a <;> rcases rest with _ | ⟨b, tail⟩ <;> rfl

theorem resolveFrom_names_last {segment : OsText} (steps : Steps segment) (budget : Nat) {l q : Location}
    {front : PathBuf} (directory : t.node l = some .directory)
    (reached : resolveFrom t.node false budget l (front ++ [segment]) = .ok q) :
    t.Names (resolveFrom t.node false budget l) front segment q := by
  induction budget generalizing l front q with
  | zero => cases reached
  | succ budget ih =>
      unfold resolveFrom at reached
      have start : t.node (if isAbsolute (front ++ [segment]) then [] else l) = some .directory := by
        split
        · exact t.node_root
        · exact directory
      obtain ⟨d, known, equal, every⟩ :=
        walk_names_last steps (fun l front directory _ found => ih directory found) start reached
      refine ⟨d, known, equal, fun other step => ?_⟩
      unfold resolveFrom
      rw [isAbsolute_concat front other segment]
      exact every other step

/-- Paths that differ only in their last segment name entries of one directory. -/
theorem resolve_names_last {segment : OsText} (steps : Steps segment) {front : PathBuf} {q : Location}
    (named : t.resolve false (front ++ [segment]) = .ok q) : ∃ d, t.node d = some .directory ∧ q = d ++ [segment] ∧
      ∀ other r, Steps other → t.resolve false (front ++ [other]) = .ok r → r = d ++ [other] := by
  obtain ⟨d, known, equal, every⟩ :=
    resolveFrom_names_last steps 41 t.node_workingDirectory (resolveFrom_of_resolve named)
  refine ⟨d, known, equal, fun other r step found => ?_⟩
  have same := (resolveFrom_of_resolve found).symm.trans (every other step)
  exact Except.ok.inj same

section Idle

variable {restart : Location → PathBuf → Except IoError Location} {l q : Location} {front : PathBuf}
  {segment : OsText}

theorem walk_idle_last (idle : ¬ Steps segment)
    (restarted : ∀ l front, t.node l = some .directory → restart l (front ++ [segment]) = .ok q →
      t.node q = some .directory)
    (directory : t.node l = some .directory)
    (reached : walk t.node restart false l (front ++ [segment]) = .ok q) : t.node q = some .directory := by
  induction front generalizing l with
  | nil =>
      rw [List.nil_append] at reached
      unfold walk at reached
      split at reached
      · cases reached
        exact directory
      next moves =>
        split at reached
        · cases reached
          exact node_dropLast directory
        next down => exact absurd ⟨moves, down⟩ idle
  | cons first rest ih =>
      have more : rest ++ [segment] ≠ [] := List.append_ne_nil_of_right_ne_nil _ (by simp)
      rw [List.cons_append] at reached
      unfold walk at reached
      split at reached
      · exact ih directory reached
      · split at reached
        · exact ih (node_dropLast directory) reached
        · split at reached
          · cases reached
          next inside => exact ih inside reached
          · rw [if_neg fun both => more both.1] at reached
            split at reached
            · cases reached
            · rw [← List.append_assoc] at reached
              exact restarted l _ directory reached
          · cases reached

theorem resolveFrom_idle_last (idle : ¬ Steps segment) (budget : Nat) (directory : t.node l = some .directory)
    (reached : resolveFrom t.node false budget l (front ++ [segment]) = .ok q) : t.node q = some .directory := by
  induction budget generalizing l front q with
  | zero => cases reached
  | succ budget ih =>
      unfold resolveFrom at reached
      refine walk_idle_last idle (fun l front directory found => ih directory found) ?_ reached
      split
      · exact t.node_root
      · exact directory

end Idle

/-- A longer last segment names another entry, unless the path names a directory. -/
theorem resolve_longer_last {segment suffix : OsText} (longer : suffix ≠ []) {front : PathBuf} {q m : Location}
    (other : Steps (segment ++ suffix)) (named : t.resolve false (front ++ [segment]) = .ok q)
    (beside : t.resolve false (front ++ [segment ++ suffix]) = .ok m) (free : t.node q ≠ some .directory) : m ≠ q := by
  by_cases steps : Steps segment
  · obtain ⟨d, -, rfl, every⟩ := resolve_names_last steps named
    rw [every _ m other beside]
    intro equal
    have last := List.append_cancel_left equal
    rw [List.cons.injEq] at last
    exact longer (List.append_right_eq_self.mp last.1)
  · exact absurd (resolveFrom_idle_last steps 41 t.node_workingDirectory (resolveFrom_of_resolve named)) free

/-- An entry that is no directory can be replaced where it is. -/
theorem placeable_of_present {l : Location} (present : t.node l ≠ none) (leaf : t.node l ≠ some .directory) :
    t.Placeable l := by
  rcases List.eq_nil_or_concat l with rfl | ⟨front, name, rfl⟩
  · exact absurd t.node_root leaf
  · rw [List.concat_eq_append] at present leaf ⊢
    refine ⟨by simp, ?_, leaf, ?_⟩
    · rw [List.dropLast_concat]
      exact t.node_parent present
    · intro other last
      rw [List.getLast?_concat, Option.mem_some_iff] at last
      subst last
      exact t.named front name present

/-- An entry other than a directory can be placed where a path names none. -/
theorem placeable_of_named {path : PathBuf} {q : Location} (cut : ∀ segment ∈ path, slash ∉ segment)
    (named : t.resolve false path = .ok q) (free : t.node q ≠ some .directory) : t.Placeable q := by
  rcases List.eq_nil_or_concat path with rfl | ⟨front, segment, rfl⟩
  · cases named
  · rw [List.concat_eq_append] at named cut
    by_cases steps : Steps segment
    · obtain ⟨d, directory, rfl, -⟩ := resolve_names_last steps named
      refine ⟨by simp, by rwa [List.dropLast_concat], free, fun name last => ?_⟩
      rw [List.getLast?_concat, Option.mem_some_iff] at last
      subst last
      have inside : segment ∈ front ++ [segment] := List.mem_append_right _ (List.mem_singleton_self _)
      refine ⟨fun empty => steps.1 (Or.inl empty), fun here => steps.1 (Or.inr here), steps.2, cut _ inside, ?_⟩
      intro bad
      unfold resolve at named
      rw [if_pos ⟨segment, inside, bad⟩] at named
      cases named
    · exact absurd (resolveFrom_idle_last steps 41 t.node_workingDirectory (resolveFrom_of_resolve named)) free

theorem Placeable.erase {q m : Location} (placeable : t.Placeable q) (leaf : t.node m ≠ some .directory) :
    (t.erase m).Placeable q := by
  obtain ⟨some, directory, free, name⟩ := placeable
  refine ⟨some, ?_, ?_, name⟩
  · rw [node_erase_ne]
    · exact directory
    · intro equal
      exact leaf (equal ▸ directory)
  · rw [node_erase t leaf]
    split
    · simp
    · exact free

end Tree
end FileSystem

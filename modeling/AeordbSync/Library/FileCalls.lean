import AeordbSync.Library.FileSystem

namespace FileSystem
open Characters OsPath

namespace Tree

/-- The walk reads one segment at a time; a symlink restarts it with one expansion less. -/
def walk (node : Location → Option Node) (restart : Location → PathBuf → Except IoError Location)
    (follow : Bool) : Location → PathBuf → Except IoError Location
  | l, [] => .ok l
  | l, segment :: rest =>
      if segment = [] ∨ segment = dot then walk node restart follow l rest
      else if segment = dot ++ dot then walk node restart follow l.dropLast rest
      else match node (l ++ [segment]) with
        | none => if rest = [] then .ok (l ++ [segment]) else .error .notFound
        | some .directory => walk node restart follow (l ++ [segment]) rest
        | some (.symlink target _) =>
            if rest = [] ∧ follow = false then .ok (l ++ [segment])
            else if target = [] then .error .notFound
            else restart l (ofText target ++ rest)
        | some _ => if rest = [] then .ok (l ++ [segment]) else .error .notADirectory

def resolveFrom (node : Location → Option Node) (follow : Bool) :
    Nat → Location → PathBuf → Except IoError Location
  | 0, _, _ => .error .filesystemLoop
  | budget + 1, l, p =>
      walk node (resolveFrom node follow budget) follow (if isAbsolute p then [] else l) p

/-- The kernel follows at most forty symlinks. -/
def resolve (t : Tree) (follow : Bool) (p : PathBuf) : Except IoError Location :=
  if ∃ segment ∈ p, nul ∈ segment then .error .invalidInput
  else if p = [] ∨ p = [[]] then .error .notFound
  else resolveFrom t.node follow 41 t.workingDirectory p

def metadata (t : Tree) (follow : Bool) (p : PathBuf) : Except IoError Node :=
  match t.resolve follow p with
  | .error e => .error e
  | .ok l => match t.node l with
    | none => .error .notFound
    | some node => .ok node

def readLink (t : Tree) (p : PathBuf) : Except IoError OsText :=
  match t.metadata false p with
  | .error e => .error e
  | .ok (.symlink target _) => .ok target
  | .ok _ => .error .invalidInput

def readDir (t : Tree) (p : PathBuf) : Except IoError (List OsText) :=
  match t.resolve true p with
  | .error e => .error e
  | .ok l => match t.node l with
    | none => .error .notFound
    | some .directory => .ok (t.children l)
    | some _ => .error .notADirectory

def read (t : Tree) (p : PathBuf) : Except IoError Bytes :=
  match t.metadata true p with
  | .error e => .error e
  | .ok (.file content _) => .ok content
  | .ok .directory => .error .isADirectory
  | .ok _ => .error .permissionDenied

/-- Only the time of a file is ever asked for. -/
def modified (t : Tree) (p : PathBuf) : Except IoError Int :=
  match t.metadata true p with
  | .error e => .error e
  | .ok (.file _ time) => .ok time
  | .ok _ => .error .permissionDenied

/-- Creating truncates a file that exists and follows a symlink. -/
def create (t : Tree) (now : Int) (p : PathBuf) : Except IoError (Location × Tree) :=
  match t.resolve true p with
  | .error e => .error e
  | .ok l => match t.node l with
    | some .directory => .error .isADirectory
    | some .special => .error .permissionDenied
    | _ => .ok (l, t.put l (.file [] now))

/-- The bytes go to the end of an open file. -/
def append (t : Tree) (now : Int) (l : Location) (bytes : Bytes) : Tree :=
  match t.node l with
  | some (.file content _) => t.put l (.file (content ++ bytes) now)
  | _ => t

/-- The entry takes the place of a file or a symlink, but not of a directory. -/
def rename (t : Tree) (source target : PathBuf) : Except IoError Tree :=
  match t.resolve false source, t.resolve false target with
  | .error e, _ => .error e
  | .ok _, .error e => .error e
  | .ok l, .ok q => match t.node l with
    | none => .error .notFound
    | some .directory => .error .permissionDenied
    | some node =>
        if t.node q = some .directory then .error .isADirectory
        else if l = q then .ok t
        else .ok ((t.erase l).put q node)

def removeFile (t : Tree) (p : PathBuf) : Except IoError Tree :=
  match t.resolve false p with
  | .error e => .error e
  | .ok l => match t.node l with
    | none => .error .notFound
    | some .directory => .error .isADirectory
    | some _ => .ok (t.erase l)

def symlink (t : Tree) (now : Int) (target : OsText) (p : PathBuf) : Except IoError Tree :=
  if target = [] then .error .notFound
  else if nul ∈ target then .error .invalidInput
  else match t.resolve false p with
    | .error e => .error e
    | .ok l => match t.node l with
      | some _ => .error .alreadyExists
      | none => .ok (t.put l (.symlink target now))

def createDir (t : Tree) (p : PathBuf) : Except IoError Tree :=
  match t.resolve false p with
  | .error e => .error e
  | .ok l => match t.node l with
    | some _ => .error .alreadyExists
    | none => .ok (t.put l .directory)

def isDir (t : Tree) (p : PathBuf) : Bool := match t.metadata true p with
  | .ok .directory => true
  | _ => false

theorem ofText_ne {target : OsText} (nonempty : target ≠ []) (rest : PathBuf) :
    ofText target ++ rest ≠ [] ∧ ofText target ++ rest ≠ [[]] := by
  have parts : [slash].intercalate (ofText target) = target := List.intercalate_splitOn slash
  constructor
  · intro equal
    rw [(List.append_eq_nil_iff.mp equal).1] at parts
    exact nonempty parts.symm
  · intro equal
    rcases List.append_eq_singleton_iff.mp equal with ⟨first, -⟩ | ⟨first, -⟩ <;>
      rw [first] at parts <;> exact nonempty parts.symm

theorem isAbsolute_append {p names : PathBuf} (nonempty : p ≠ []) (notEmpty : p ≠ [[]]) :
    isAbsolute (p ++ names) = isAbsolute p := by
  rcases p with _ | ⟨a, _ | ⟨b, more⟩⟩
  · exact absurd rfl nonempty
  · cases a with
    | nil => exact absurd rfl notEmpty
    | cons unit tail => rfl
  · cases a <;> rfl

/-- An empty segment or a dot in the middle of a path changes nothing. -/
theorem resolveFrom_idle (node : Location → Option Node) (follow : Bool) (budget : Nat)
    (l : Location) {p names : PathBuf} {segment : OsText} (idle : segment = [] ∨ segment = dot)
    (nonempty : p ≠ []) (more : names ≠ []) :
    resolveFrom node follow budget l (p ++ segment :: names) =
      resolveFrom node follow budget l (p ++ names) := by
  induction budget generalizing l p with
  | zero => rfl
  | succ budget ih =>
      have inner : ∀ (q : PathBuf) (l : Location),
          walk node (resolveFrom node follow budget) follow l (q ++ segment :: names) =
            walk node (resolveFrom node follow budget) follow l (q ++ names) := by
        intro q
        induction q with
        | nil => intro l; simp [walk, idle]
        | cons first rest step =>
            intro l
            simp only [List.cons_append, walk, step, List.append_eq_nil_iff, more, and_false,
              reduceCtorEq, if_false, false_and]
            congr 2
            split
            · rfl
            · rfl
            · next target _ _ =>
                by_cases empty : target = []
                · simp [empty]
                · simp only [empty, if_false, ← List.append_assoc]
                  exact ih l (ofText_ne empty rest).1
            · rfl
      have absolute : isAbsolute (p ++ segment :: names) = isAbsolute (p ++ names) := by
        obtain ⟨a, rest, rfl⟩ := List.exists_cons_of_ne_nil nonempty
        obtain ⟨b, tail, rfl⟩ := List.exists_cons_of_ne_nil more
        rcases rest with _ | ⟨c, rest⟩ <;> cases a <;> rfl
      simp only [resolveFrom, absolute, inner]

/-- A path that reaches a directory hands the names below it to a walk from there. -/
theorem resolveFrom_append (node : Location → Option Node) (budget : Nat) (l : Location)
    {p : PathBuf} {base : Location} (nonempty : p ≠ []) (notEmpty : p ≠ [[]])
    (reached : resolveFrom node true budget l p = .ok base)
    (directory : node base = some .directory) :
    ∃ left, ∀ (follow : Bool) (names : PathBuf), names ≠ [] →
      resolveFrom node follow budget l (p ++ names) =
        walk node (resolveFrom node follow left) follow base names := by
  induction budget generalizing l p with
  | zero => cases reached
  | succ budget ih =>
      have inner : ∀ (q : PathBuf) (l : Location),
          walk node (resolveFrom node true budget) true l q = .ok base →
          ∃ left, ∀ (follow : Bool) (names : PathBuf), names ≠ [] →
            walk node (resolveFrom node follow budget) follow l (q ++ names) =
              walk node (resolveFrom node follow left) follow base names := by
        intro q
        induction q with
        | nil =>
            intro l here
            simp only [walk, Except.ok.injEq] at here
            subst here
            exact ⟨budget, fun _ _ _ => rfl⟩
        | cons segment rest step =>
            intro l here
            simp only [walk] at here
            simp only [List.cons_append, walk, List.append_eq_nil_iff]
            split at here
            · next stay => simpa only [stay, if_true] using step l here
            · next moves =>
              simp only [moves, if_false]
              split at here
              · next up => simpa only [up, if_true] using step l.dropLast here
              · next down =>
                simp only [down, if_false]
                split at here
                · next absent =>
                  split at here
                  · simp only [Except.ok.injEq] at here
                    rw [← here, absent] at directory
                    cases directory
                  · cases here
                · exact step _ here
                · next target time link =>
                  split at here
                  · next nofollow => cases nofollow.2
                  · split at here
                    · cases here
                    · next some =>
                      have tail := ofText_ne some rest
                      obtain ⟨left, after⟩ := ih l tail.1 tail.2 here
                      refine ⟨left, fun follow names more => ?_⟩
                      simp only [more, and_false, false_and, if_false, some, ← List.append_assoc]
                      exact after follow names more
                · next other notDirectory notLink present =>
                  split at here
                  · simp only [Except.ok.injEq] at here
                    rw [← here, present] at directory
                    exact absurd (Option.some.inj directory) notDirectory
                  · cases here
      obtain ⟨left, after⟩ := inner p _ reached
      refine ⟨left, fun follow names more => ?_⟩
      simp only [resolveFrom, isAbsolute_append nonempty notEmpty]
      exact after follow names more

/-- Names whose directories exist are walked one after the other. -/
theorem walk_names (node : Location → Option Node)
    (restart : Location → PathBuf → Except IoError Location) (follow : Bool) (l : Location)
    {names : List OsText} (valid : ∀ name ∈ names, IsName name)
    (above : ∀ front back, names = front ++ back → front ≠ [] → back ≠ [] →
      node (l ++ front) = some .directory)
    (last : follow = true → ∀ target time, node (l ++ names) ≠ some (.symlink target time)) :
    walk node restart follow l names = .ok (l ++ names) := by
  induction names generalizing l with
  | nil => simp [walk]
  | cons name rest ih =>
      obtain ⟨nonempty, notDot, notParent, -⟩ := valid name (List.mem_cons_self ..)
      simp only [walk, nonempty, notDot, notParent, or_self, if_false]
      by_cases final : rest = []
      · subst final
        cases present : node (l ++ [name]) with
        | none => rfl
        | some found =>
            cases found with
            | symlink target time =>
                cases follow with
                | false => rfl
                | true => exact absurd present (last rfl target time)
            | directory => simp [walk]
            | file content time => rfl
            | special => rfl
      · have inside := above [name] rest rfl (by simp) final
        rw [inside]
        have tail := ih (l ++ [name]) (fun other later => valid other (List.mem_cons_of_mem _ later))
          (fun front back split some more => by
            have deeper := above (name :: front) back (by simp [split]) (by simp) more
            simpa using deeper)
          (fun follows => by simpa using last follows)
        simpa using tail

/-- The base path reaches a directory, and every name below it is walked from there. -/
structure Reaches (t : Tree) (base : PathBuf) (l : Location) : Prop where
  directory : t.node l = some .directory
  here : t.resolve true base = .ok l
  below : ∃ left, ∀ (follow : Bool) (names : List OsText), names ≠ [] →
    (∀ name ∈ names, IsName name) → t.resolve follow (OsPath.below base names) =
      walk t.node (resolveFrom t.node follow left) follow l names

theorem reaches_of_resolve {t : Tree} {base : PathBuf} {l : Location}
    (here : t.resolve true base = .ok l) (directory : t.node l = some .directory) :
    t.Reaches base l := by
  refine ⟨directory, here, ?_⟩
  unfold resolve at here
  split at here
  · cases here
  next clean =>
    split at here
    · cases here
    next some =>
      obtain ⟨nonempty, notEmpty⟩ := not_or.mp some
      obtain ⟨left, after⟩ := resolveFrom_append t.node 41 _ nonempty notEmpty here directory
      refine ⟨left, fun follow names more valid => ?_⟩
      obtain ⟨first, rest, rfl⟩ := List.exists_cons_of_ne_nil more
      have legal : ¬ ∃ segment ∈ OsPath.below base (first :: rest), nul ∈ segment := by
        rintro ⟨segment, inside, bad⟩
        rcases List.mem_append.mp inside with early | late
        · refine clean ⟨segment, ?_, bad⟩
          rcases openEnd_cases base with ⟨front, equal, same⟩ | ⟨-, same⟩
          · rw [equal]
            exact List.mem_append_left _ (same ▸ early)
          · exact same ▸ early
        · exact (valid segment late).2.2.2.2 bad
      have real : ¬ (OsPath.below base (first :: rest) = [] ∨
          OsPath.below base (first :: rest) = [[]]) := by
        have named := (valid first (List.mem_cons_self ..)).1
        rintro (equal | equal)
        · simp [OsPath.below] at equal
        · rcases List.append_eq_singleton_iff.mp equal with ⟨-, same⟩ | ⟨-, same⟩
          · simp only [List.cons.injEq] at same
            exact named same.1
          · cases same
      rw [resolve, if_neg legal, if_neg real, ← after follow _ more]
      rcases openEnd_cases base with ⟨front, equal, same⟩ | ⟨-, same⟩
      · have some : front ≠ [] := by
          rintro rfl
          exact notEmpty equal
        rw [OsPath.below, same, equal, List.append_assoc, List.singleton_append,
          resolveFrom_idle _ _ _ _ (Or.inl rfl) some more]
      · rw [OsPath.below, same]

/-- Only a directory can be listed. -/
theorem readDir_refused {t : Tree} {p : PathBuf}
    (refused : ¬ ∃ l, t.resolve true p = .ok l ∧ t.node l = some .directory) :
    ∃ error, t.readDir p = .error error := by
  unfold readDir
  cases resolved : t.resolve true p with
  | error error => exact ⟨error, rfl⟩
  | ok l =>
      dsimp only
      split
      next => exact ⟨_, rfl⟩
      next directory => exact absurd ⟨l, resolved, directory⟩ refused
      next => exact ⟨_, rfl⟩

namespace Reaches

variable {t : Tree} {base : PathBuf} {l : Location}

/-- A path below the base is resolved when its directory exists. -/
theorem resolve_below (reaches : t.Reaches base l) {names : List OsText} (nonempty : names ≠ [])
    (valid : ∀ name ∈ names, IsName name)
    (parent : t.node (l ++ names.dropLast) = some .directory) (follow : Bool)
    (last : follow = true → ∀ target time, t.node (l ++ names) ≠ some (.symlink target time)) :
    t.resolve follow (OsPath.below base names) = .ok (l ++ names) := by
  obtain ⟨left, after⟩ := reaches.below
  rw [after follow names nonempty valid]
  refine walk_names _ _ _ _ valid (fun front back split _ more => ?_) last
  obtain ⟨init, final, rfl⟩ := (List.eq_nil_or_concat back).resolve_left more
  rw [split, List.concat_eq_append, ← List.append_assoc, List.dropLast_concat,
    ← List.append_assoc] at parent
  by_cases empty : init = []
  · rwa [empty, List.append_nil] at parent
  · exact t.node_above empty (by rw [parent]; exact Option.some_ne_none _)

theorem resolve_present (reaches : t.Reaches base l) {names : List OsText} (nonempty : names ≠ [])
    (present : t.node (l ++ names) ≠ none) :
    t.resolve false (OsPath.below base names) = .ok (l ++ names) := by
  have valid := t.names_valid present
  refine reaches.resolve_below nonempty valid ?_ false (fun follows => by cases follows)
  obtain ⟨front, last, rfl⟩ := (List.eq_nil_or_concat names).resolve_left nonempty
  rw [List.concat_eq_append, ← List.append_assoc] at present
  rw [List.concat_eq_append, List.dropLast_concat]
  exact t.node_parent present

theorem metadata_present (reaches : t.Reaches base l) {names : List OsText} {node : Node}
    (nonempty : names ≠ []) (present : t.node (l ++ names) = some node) :
    t.metadata false (OsPath.below base names) = .ok node := by
  have resolved := reaches.resolve_present nonempty (by rw [present]; exact Option.some_ne_none _)
  rw [metadata, resolved]
  simp only [present]

/-- A file below the base is read, and dated, through its own path. -/
theorem file_present (reaches : t.Reaches base l) {names : List OsText} {content : Bytes} {time : Int}
    (nonempty : names ≠ []) (present : t.node (l ++ names) = some (.file content time)) :
    t.read (OsPath.below base names) = .ok content ∧ t.modified (OsPath.below base names) = .ok time := by
  have exist : t.node (l ++ names) ≠ none := by
    rw [present]
    exact Option.some_ne_none _
  have resolved : t.resolve true (OsPath.below base names) = .ok (l ++ names) := by
    refine reaches.resolve_below nonempty (t.names_valid exist) ?_ true fun _ target moment link => ?_
    · obtain ⟨front, last, rfl⟩ := (List.eq_nil_or_concat names).resolve_left nonempty
      rw [List.concat_eq_append, ← List.append_assoc] at exist
      rw [List.concat_eq_append, List.dropLast_concat]
      exact t.node_parent exist
    · rw [present] at link
      cases link
  have known : t.metadata true (OsPath.below base names) = .ok (.file content time) := by
    rw [metadata, resolved]
    simp only [present]
  exact ⟨by rw [read, known], by rw [modified, known]⟩

end Reaches

/-- A walk that ends at a file ends there as well when it follows symlinks. -/
theorem walk_follow {node : Location → Option Node} {restart other : Location → PathBuf → Except IoError Location}
    {q : Location} {content : Bytes} {time : Int} (file : node q = some (.file content time))
    (again : ∀ l p, restart l p = .ok q → other l p = .ok q) {l : Location} {p : PathBuf}
    (reached : walk node restart false l p = .ok q) : walk node other true l p = .ok q := by
  induction p generalizing l with
  | nil => exact reached
  | cons segment rest ih =>
      unfold walk at reached ⊢
      split at reached
      next stay => exact (if_pos stay).trans (ih reached)
      next moves =>
        rw [if_neg moves]
        split at reached
        next up => exact (if_pos up).trans (ih reached)
        next down =>
          rw [if_neg down]
          split at reached
          next absent =>
            split at reached
            · cases reached
              rw [absent] at file
              cases file
            · cases reached
          next directory =>
            exact ih reached
          next target moment link =>
            simp only [Bool.true_eq_false, and_false, if_false]
            split at reached
            · cases reached
              rw [link] at file
              cases file
            · split at reached
              · cases reached
              next some =>
                rw [if_neg some]
                exact again _ _ reached
          next found notDirectory notLink present =>
            exact reached

theorem resolveFrom_follow {node : Location → Option Node} {q : Location} {content : Bytes} {time : Int}
    (file : node q = some (.file content time)) (budget : Nat) {l : Location} {p : PathBuf}
    (reached : resolveFrom node false budget l p = .ok q) : resolveFrom node true budget l p = .ok q := by
  induction budget generalizing l p with
  | zero => cases reached
  | succ budget ih => exact walk_follow file (fun _ _ => ih) reached

/-- What is a file itself is the same file at the end of its symlinks. -/
theorem metadata_follow {t : Tree} {p : PathBuf} {content : Bytes} {time : Int}
    (found : t.metadata false p = .ok (.file content time)) : t.metadata true p = .ok (.file content time) := by
  unfold metadata at found ⊢
  cases resolved : t.resolve false p with
  | error error =>
      rw [resolved] at found
      cases found
  | ok q =>
      rw [resolved] at found
      have file : t.node q = some (.file content time) := by
        cases present : t.node q with
        | none => simp [present] at found
        | some node => simpa [present] using found
      have same : t.resolve true p = .ok q := by
        unfold resolve at resolved ⊢
        split at resolved
        · cases resolved
        · split at resolved
          · cases resolved
          · simp only [*, if_false]
            exact resolveFrom_follow file _ resolved
      simp only [same, file]

end Tree
end FileSystem

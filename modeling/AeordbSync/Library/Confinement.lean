import AeordbSync.Library.Canonical

namespace FileSystem
open Characters OsPath

/-- The segments that a walk takes. -/
def solid (p : PathBuf) : PathBuf := p.filter fun segment => segment ≠ [] ∧ segment ≠ dot

/-- Where the segments lead when no symlink is met. -/
def place : Location → PathBuf → Location
  | l, [] => l
  | l, segment :: rest =>
      if segment = [] ∨ segment = dot then place l rest
      else if segment = dot ++ dot then place l.dropLast rest
      else place (l ++ [segment]) rest

/-- The segments never climb above the base and meet no linked place; only the last place may be linked
when it is not followed. -/
def StaysBelow (linked : Location → Prop) (base : Location) (follow : Bool) : Location → PathBuf → Prop
  | _, [] => True
  | l, segment :: rest =>
      if segment = [] ∨ segment = dot then StaysBelow linked base follow l rest
      else if segment = dot ++ dot then l ≠ base ∧ StaysBelow linked base follow l.dropLast rest
      else ((rest = [] ∧ follow = false) ∨ ¬ linked (l ++ [segment])) ∧
        StaysBelow linked base follow (l ++ [segment]) rest

instance decidableStaysBelow (linked : Location → Prop) [DecidablePred linked] (base : Location) (follow : Bool) :
    (l : Location) → (p : PathBuf) → Decidable (StaysBelow linked base follow l p)
  | _, [] => .isTrue trivial
  | l, segment :: rest =>
      have := decidableStaysBelow linked base follow l rest
      have := decidableStaysBelow linked base follow l.dropLast rest
      have := decidableStaysBelow linked base follow (l ++ [segment]) rest
      inferInstanceAs (Decidable (if segment = [] ∨ segment = dot then StaysBelow linked base follow l rest
        else if segment = dot ++ dot then l ≠ base ∧ StaysBelow linked base follow l.dropLast rest
        else ((rest = [] ∧ follow = false) ∨ ¬ linked (l ++ [segment])) ∧
          StaysBelow linked base follow (l ++ [segment]) rest))

theorem prefix_dropLast {base l : Location} (within : base <+: l) (strict : l ≠ base) : base <+: l.dropLast := by
  obtain ⟨names, rfl⟩ := within
  have some : names ≠ [] := by
    rintro rfl
    exact strict (List.append_nil _)
  rw [List.dropLast_append_of_ne_nil some]
  exact List.prefix_append ..

namespace StaysBelow

variable {linked more : Location → Prop} {base l : Location} {follow : Bool} {p : PathBuf}

theorem unfollowed (stays : StaysBelow linked base true l p) : StaysBelow linked base false l p := by
  induction p generalizing l with
  | nil => trivial
  | cons segment rest ih =>
      unfold StaysBelow at stays ⊢
      split
      next idle =>
        rw [if_pos idle] at stays
        exact ih stays
      next moves =>
        rw [if_neg moves] at stays
        split
        next up =>
          rw [if_pos up] at stays
          exact ⟨stays.1, ih stays.2⟩
        next down =>
          rw [if_neg down] at stays
          exact ⟨Or.inr (stays.1.resolve_left fun last => Bool.noConfusion last.2), ih stays.2⟩

/-- The segments before the last ones stay below the base, and they meet no linked place at all. -/
theorem front {p names : PathBuf} (stays : StaysBelow linked base follow l (p ++ names)) (some : names ≠ []) :
    StaysBelow linked base true l p := by
  induction p generalizing l with
  | nil => trivial
  | cons segment rest ih =>
      rw [List.cons_append] at stays
      unfold StaysBelow at stays ⊢
      split
      next idle =>
        rw [if_pos idle] at stays
        exact ih stays
      next moves =>
        rw [if_neg moves] at stays
        split
        next up =>
          rw [if_pos up] at stays
          exact ⟨stays.1, ih stays.2⟩
        next down =>
          rw [if_neg down] at stays
          refine ⟨Or.inr (stays.1.resolve_left fun last => ?_), ih stays.2⟩
          exact some (List.append_eq_nil_iff.mp last.1).2

theorem initial {p names : PathBuf} (stays : StaysBelow linked base follow l (p ++ names)) :
    StaysBelow linked base false l p := by
  by_cases some : names = []
  · subst some
    rw [List.append_nil] at stays
    cases follow with
    | false => exact stays
    | true => exact stays.unfollowed
  · exact (stays.front some).unfollowed

/-- Empty segments and dots lead nowhere. -/
theorem solid (stays : StaysBelow linked base follow l p) : StaysBelow linked base follow l (solid p) := by
  induction p generalizing l with
  | nil => trivial
  | cons segment rest ih =>
      unfold FileSystem.solid at ih ⊢
      unfold StaysBelow at stays
      split at stays
      next idle =>
        rw [List.filter_cons_of_neg (by simpa [← not_or] using idle)]
        exact ih stays
      next moves =>
        rw [List.filter_cons_of_pos (by simpa [← not_or] using moves)]
        unfold StaysBelow
        rw [if_neg moves]
        split at stays
        next up =>
          rw [if_pos up]
          exact ⟨stays.1, ih stays.2⟩
        next down =>
          rw [if_neg down]
          refine ⟨stays.1.imp_left fun last => ⟨?_, last.2⟩, ih stays.2⟩
          rw [last.1, List.filter_nil]

end StaysBelow

namespace Tree

def Symlinked (t : Tree) (l : Location) : Prop := ∃ target time, t.node l = some (.symlink target time)

theorem symlinked_iff {t : Tree} {l : Location} : t.Symlinked l ↔ (t.node l).any Node.isSymlink = true := by
  unfold Symlinked
  cases t.node l with
  | none => simp
  | some node => cases node <;> simp [Node.isSymlink]

instance (t : Tree) : DecidablePred t.Symlinked := fun _ => decidable_of_iff _ symlinked_iff.symm

section Walk

variable {t : Tree} {linked : Location → Prop} {base l q : Location} {follow : Bool} {p : PathBuf}
  {restart other : Location → PathBuf → Except IoError Location}

/-- A walk that meets no symlink below the base ends where its segments lead. -/
theorem walk_staysBelow (links : ∀ q, base <+: q → t.Symlinked q → linked q) (within : base <+: l)
    (stays : StaysBelow linked base follow l p) (reached : walk t.node restart follow l p = .ok q) :
    q = place l p ∧ base <+: q := by
  induction p generalizing l with
  | nil =>
      cases reached
      exact ⟨rfl, within⟩
  | cons segment rest ih =>
      have deeper : base <+: l ++ [segment] := within.trans (List.prefix_append ..)
      unfold walk at reached
      unfold StaysBelow at stays
      unfold place
      split at reached
      next idle =>
        rw [if_pos idle] at stays ⊢
        exact ih within stays reached
      next moves =>
        rw [if_neg moves] at stays ⊢
        split at reached
        next up =>
          rw [if_pos up] at stays ⊢
          exact ih (prefix_dropLast within stays.1) stays.2 reached
        next down =>
          rw [if_neg down] at stays ⊢
          have ended : rest = [] → Except.ok (ε := IoError) (l ++ [segment]) = .ok q →
              q = place (l ++ [segment]) rest ∧ base <+: q := by
            rintro rfl equal
            cases equal
            exact ⟨rfl, deeper⟩
          split at reached
          · split at reached
            next last => exact ended last reached
            next => cases reached
          · exact ih deeper stays.2 reached
          next target time link =>
            split at reached
            next last => exact ended last.1 reached
            next follows =>
              exact absurd (links _ deeper ⟨target, time, link⟩) (stays.1.resolve_left follows)
          · split at reached
            next last => exact ended last reached
            next => cases reached

/-- A walk that meets no symlink at all comes to the same place whether or not it follows symlinks. -/
theorem walk_unfollowed (links : ∀ q, base <+: q → t.Symlinked q → linked q) (within : base <+: l)
    (stays : StaysBelow linked base true l p) :
    walk t.node restart true l p = walk t.node other false l p := by
  induction p generalizing l with
  | nil => rfl
  | cons segment rest ih =>
      have deeper : base <+: l ++ [segment] := within.trans (List.prefix_append ..)
      unfold StaysBelow at stays
      unfold walk
      split
      next idle =>
        rw [if_pos idle] at stays
        exact ih within stays
      next moves =>
        rw [if_neg moves] at stays
        split
        next up =>
          rw [if_pos up] at stays
          exact ih (prefix_dropLast within stays.1) stays.2
        next down =>
          rw [if_neg down] at stays
          have free : ¬ linked (l ++ [segment]) := stays.1.resolve_left fun last => Bool.noConfusion last.2
          split
          · rfl
          · exact ih deeper stays.2
          next target time link => exact absurd (links _ deeper ⟨target, time, link⟩) free
          · rfl

/-- Every path before the end of a path that exists leads to an entry. -/
theorem walk_front {p names : PathBuf} (directory : t.node l = some .directory)
    (again : ∀ l p names, p ≠ [] → p ≠ [[]] → t.node l = some .directory → restart l (p ++ names) = .ok q →
      ∃ q', other l p = .ok q' ∧ t.node q' ≠ none)
    (reached : walk t.node restart true l (p ++ names) = .ok q) (present : t.node q ≠ none) :
    ∃ q', walk t.node other false l p = .ok q' ∧ t.node q' ≠ none := by
  induction p generalizing l with
  | nil => exact ⟨l, rfl, by rw [directory]; exact Option.some_ne_none _⟩
  | cons segment rest ih =>
      rw [List.cons_append] at reached
      unfold walk at reached ⊢
      split at reached
      next idle =>
        rw [if_pos idle]
        exact ih directory reached
      next moves =>
        rw [if_neg moves]
        split at reached
        next up =>
          rw [if_pos up]
          exact ih (node_dropLast directory) reached
        next down =>
          rw [if_neg down]
          split at reached
          next absent =>
            split at reached
            · cases reached
              exact absurd absent present
            · cases reached
          next inside => exact ih inside reached
          next target time link =>
            have exist : t.node (l ++ [segment]) ≠ none := by rw [link]; exact Option.some_ne_none _
            rw [if_neg (by simp)] at reached
            by_cases last : rest = []
            · exact ⟨_, if_pos ⟨last, rfl⟩, exist⟩
            · rw [if_neg fun both => last both.1]
              split at reached
              next => cases reached
              next some =>
                have tail := ofText_ne some rest
                rw [if_neg some]
                rw [← List.append_assoc] at reached
                exact again _ _ _ tail.1 tail.2 directory reached
          next node notDirectory notLink present =>
            split at reached
            next last =>
              rw [if_pos (List.append_eq_nil_iff.mp last).1]
              exact ⟨_, rfl, by rw [present]; exact Option.some_ne_none _⟩
            next => cases reached

theorem resolveFrom_front (budget : Nat) {p names : PathBuf} (nonempty : p ≠ []) (notEmpty : p ≠ [[]])
    (directory : t.node l = some .directory)
    (reached : resolveFrom t.node true budget l (p ++ names) = .ok q) (present : t.node q ≠ none) :
    ∃ q', resolveFrom t.node false budget l p = .ok q' ∧ t.node q' ≠ none := by
  induction budget generalizing l p names with
  | zero => cases reached
  | succ budget ih =>
      unfold resolveFrom at reached ⊢
      rw [isAbsolute_append nonempty notEmpty] at reached
      refine walk_front ?_ (fun l p names nonempty notEmpty directory => ih nonempty notEmpty directory) reached present
      split
      · exact t.node_root
      · exact directory

end Walk

theorem componentOf_text {segment : OsText} {c : Component} (found : componentOf segment = some c) :
    c.text = segment := by
  unfold componentOf at found
  split at found
  · cases found
  · split at found
    · cases found
    · split at found
      next up =>
        cases found
        exact up.symm
      · cases found
        rfl

theorem filterMap_componentOf_text (p : PathBuf) : (p.filterMap componentOf).map Component.text = solid p := by
  induction p with
  | nil => rfl
  | cons segment rest ih =>
      unfold solid at ih ⊢
      cases found : componentOf segment with
      | none =>
          have idle : ¬ (segment ≠ [] ∧ segment ≠ dot) := by
            rintro ⟨some, notDot⟩
            unfold componentOf at found
            rw [if_neg some, if_neg notDot] at found
            split at found <;> cases found
          rw [List.filterMap_cons_none found, List.filter_cons_of_neg (by simpa using idle), ih]
      | some c =>
          have same := componentOf_text found
          obtain ⟨-, some, notDot⟩ := of_componentOf found
          rw [same] at some notDot
          rw [List.filterMap_cons_some found, List.map_cons, same,
            List.filter_cons_of_pos (by simp [some, notDot]), ih]

/-- The components of a path are its first segment and the segments that a walk takes after it. -/
theorem components_text {first : OsText} {rest : PathBuf} (notEmpty : first :: rest ≠ [[]]) :
    (components (first :: rest)).map Component.text = first :: solid rest := by
  unfold components
  split
  next absolute =>
    cases first with
    | nil =>
        have empty : componentOf [] = none := by decide
        rw [List.filterMap_cons_none empty, List.map_cons, filterMap_componentOf_text]
        rfl
    | cons unit units => cases absolute
  next relative =>
    split
    next dotted =>
      have skipped : componentOf dot = none := by decide
      rw [List.head?_cons, Option.some.injEq] at dotted
      rw [dotted, List.filterMap_cons_none skipped, List.map_cons, filterMap_componentOf_text]
      rfl
    next notDot =>
      have some : first ≠ [] := by
        rintro rfl
        cases rest with
        | nil => exact notEmpty rfl
        | cons second more => exact relative rfl
      have different : first ≠ dot := fun equal => notDot (congrArg Option.some equal)
      rw [filterMap_componentOf_text]
      exact List.filter_cons_of_pos (by simp [some, different])

theorem ofComponents_text {cs : List Component} (some : cs ≠ []) (notRoot : cs ≠ [.rootDir]) :
    ofComponents cs = cs.map Component.text := by
  unfold ofComponents
  split
  · exact absurd rfl some
  · exact absurd rfl notRoot
  · rfl

/-- Only the segments that a walk takes matter in the middle of a path. -/
theorem resolveFrom_solid (node : Location → Option Node) (follow : Bool) (budget : Nat) (l : Location)
    {front names : PathBuf} (p : PathBuf) (nonempty : front ≠ []) (more : names ≠ []) :
    resolveFrom node follow budget l (front ++ (solid p ++ names)) =
      resolveFrom node follow budget l (front ++ (p ++ names)) := by
  induction p generalizing front with
  | nil => rfl
  | cons segment rest ih =>
      by_cases idle : segment = [] ∨ segment = dot
      · have dropped : solid (segment :: rest) = solid rest :=
          List.filter_cons_of_neg (by simpa [← not_or] using idle)
        rw [dropped, ih nonempty, List.cons_append, resolveFrom_idle _ _ _ _ idle nonempty (by simp [more])]
      · have taken : solid (segment :: rest) = segment :: solid rest :=
          List.filter_cons_of_pos (by simpa [← not_or] using idle)
        have shifted := @ih (front ++ [segment]) (by simp)
        rw [List.append_assoc, List.append_assoc] at shifted
        rw [taken]
        exact shifted

section Base

variable {t : Tree} {base : PathBuf} {b : Location}

theorem resolve_nonempty (reached : t.resolve true base = .ok b) : base ≠ [] ∧ base ≠ [[]] := by
  unfold resolve at reached
  split at reached
  · cases reached
  · split at reached
    · cases reached
    next some => exact not_or.mp some

theorem resolveFrom_of_resolve {follow : Bool} {p : PathBuf} {q : Location} (reached : t.resolve follow p = .ok q) :
    resolveFrom t.node follow 41 t.workingDirectory p = .ok q := by
  unfold resolve at reached
  split at reached
  · cases reached
  · split at reached
    · cases reached
    · exact reached

/-- A path whose base leads to a directory is walked from there. -/
theorem resolve_openEnd (reached : t.resolve true base = .ok b) (directory : t.node b = some .directory) :
    ∃ left, ∀ (follow : Bool) (names : PathBuf) (q : Location), names ≠ [] →
      t.resolve follow (openEnd base ++ names) = .ok q →
      walk t.node (resolveFrom t.node follow left) follow b names = .ok q := by
  obtain ⟨nonempty, notEmpty⟩ := resolve_nonempty reached
  obtain ⟨left, after⟩ := resolveFrom_append t.node 41 _ nonempty notEmpty (resolveFrom_of_resolve reached) directory
  refine ⟨left, fun follow names q more found => ?_⟩
  rw [← after follow names more]
  have whole := resolveFrom_of_resolve found
  rcases openEnd_cases base with ⟨front, equal, same⟩ | ⟨-, same⟩
  · have some : front ≠ [] := by
      rintro rfl
      exact notEmpty equal
    rw [equal, List.append_assoc, List.singleton_append, resolveFrom_idle _ _ _ _ (Or.inl rfl) some more, ← same]
    exact whole
  · rw [← same]
    exact whole

/-- Components below the base are walked from where the base leads. -/
theorem resolve_components (reached : t.resolve true base = .ok b) (directory : t.node b = some .directory) :
    ∃ left, ∀ (follow : Bool) (more : List Component) (q : Location), more ≠ [] →
      t.resolve follow (ofComponents (components base ++ more)) = .ok q →
      walk t.node (resolveFrom t.node follow left) follow b (more.map Component.text) = .ok q := by
  obtain ⟨nonempty, notEmpty⟩ := resolve_nonempty reached
  obtain ⟨left, after⟩ := resolveFrom_append t.node 41 _ nonempty notEmpty (resolveFrom_of_resolve reached) directory
  obtain ⟨first, rest, rfl⟩ := List.exists_cons_of_ne_nil nonempty
  refine ⟨left, fun follow more q some found => ?_⟩
  have texts := components_text notEmpty
  have head : components (first :: rest) ≠ [] := by
    intro none
    rw [none] at texts
    cases texts
  have form : ofComponents (components (first :: rest) ++ more) =
      [first] ++ (solid rest ++ more.map Component.text) := by
    rw [ofComponents_text (by simp [some]), List.map_append, texts]
    · rfl
    · intro root
      rcases List.append_eq_singleton_iff.mp root with ⟨none, -⟩ | ⟨-, none⟩
      · exact head none
      · exact some none
  have whole := resolveFrom_of_resolve found
  have below : more.map Component.text ≠ [] := by simp [some]
  rw [form, resolveFrom_solid _ _ _ _ rest (List.cons_ne_nil _ _) below] at whole
  rw [← after follow _ below]
  exact whole

/-- Every directory on the way to the base exists. -/
theorem resolve_leads (reached : t.resolve true base = .ok b) (directory : t.node b = some .directory)
    {front : List Component} (before : front <+: components base) {q : Location}
    (found : t.resolve false (ofComponents front) = .ok q) : t.node q ≠ none := by
  obtain ⟨nonempty, notEmpty⟩ := resolve_nonempty reached
  obtain ⟨left, after⟩ := resolveFrom_append t.node 41 _ nonempty notEmpty (resolveFrom_of_resolve reached) directory
  obtain ⟨first, rest, rfl⟩ := List.exists_cons_of_ne_nil nonempty
  obtain ⟨back, whole⟩ := before
  by_cases empty : front = []
  · subst empty
    cases found
  · by_cases root : front = [.rootDir]
    · subst root
      cases found
      show t.node [] ≠ none
      rw [t.node_root]
      exact Option.some_ne_none _
    · have texts := components_text notEmpty
      rw [← whole, List.map_append] at texts
      have arrived : resolveFrom t.node true 41 t.workingDirectory
          (front.map Component.text ++ (back.map Component.text ++ [dot])) = .ok b := by
        have here := after true [dot] (List.cons_ne_nil _ _)
        have stay : walk t.node (resolveFrom t.node true left) true b [dot] = .ok b := rfl
        rw [← List.append_assoc, texts, ← here.trans stay]
        exact @resolveFrom_solid t.node true 41 t.workingDirectory [first] _ rest (List.cons_ne_nil _ _)
          (List.cons_ne_nil _ _)
      have form := ofComponents_text empty root
      have some : front.map Component.text ≠ [[]] := by
        intro equal
        rw [← form] at equal
        rw [equal] at found
        cases found
      obtain ⟨q', there, present⟩ := resolveFrom_front 41 (by simpa using empty) some t.node_workingDirectory
        arrived (by rw [directory]; exact Option.some_ne_none _)
      have same := resolveFrom_of_resolve found
      rw [form, there] at same
      rw [← Except.ok.inj same]
      exact present

end Base

/-- The tree has come from another one by changes below a location, and no directory has gone. -/
structure ChangedBelow (b : Location) (start t : Tree) : Prop where
  workingDirectory : t.workingDirectory = start.workingDirectory
  directories : ∀ q, start.node q = some .directory → t.node q = some .directory
  outside : ∀ q, ¬ b <+: q → t.node q = start.node q

/-- Whatever changes below the location, the path leads to it. -/
def Anchored (start : Tree) (base : PathBuf) (b : Location) : Prop :=
  start.node b = some .directory ∧ ∀ t, ChangedBelow b start t → t.resolve true base = .ok b

/-- The symlinks below the location are at linked places. -/
structure Confined (linked : Location → Prop) (b : Location) (start t : Tree) : Prop
    extends ChangedBelow b start t where
  links : ∀ q, b <+: q → t.Symlinked q → linked q

theorem ChangedBelow.refl (b : Location) (start : Tree) : ChangedBelow b start start :=
  ⟨rfl, fun _ => id, fun _ _ => rfl⟩

namespace Confined

variable {linked more : Location → Prop} {b l : Location} {start t next : Tree} {p : PathBuf}

theorem mono (confined : Confined linked b start t) (wider : ∀ q, linked q → more q) : Confined more b start t :=
  ⟨confined.toChangedBelow, fun q within link => wider q (confined.links q within link)⟩

/-- An entry is placed below the location. -/
theorem put (confined : Confined linked b start t) (within : b <+: l) {node : Node}
    (link : node.isSymlink = true → linked l) : Confined linked b start (t.put l node) := by
  by_cases placeable : t.Placeable l
  · have same := @node_put t _ node placeable
    refine ⟨⟨by rw [put_workingDirectory, confined.workingDirectory], fun q directory => ?_, fun q outside => ?_⟩,
      fun q inside symlinked => ?_⟩
    · have kept := confined.directories q directory
      rw [same, if_neg]
      · exact kept
      · rintro rfl
        exact placeable.2.2.1 kept
    · rw [same, if_neg]
      · exact confined.outside q outside
      · rintro rfl
        exact outside within
    · obtain ⟨target, time, found⟩ := symlinked
      rw [same] at found
      split at found
      next here =>
        subst here
        cases found
        exact link rfl
      next => exact confined.links q inside ⟨target, time, found⟩
  · rw [Tree.put, dif_neg placeable]
    exact confined

theorem erase (confined : Confined linked b start t) (within : b <+: l) : Confined linked b start (t.erase l) := by
  by_cases leaf : t.node l ≠ some .directory
  · have same := t.node_erase leaf
    refine ⟨⟨by rw [erase_workingDirectory, confined.workingDirectory], fun q directory => ?_, fun q outside => ?_⟩,
      fun q inside symlinked => ?_⟩
    · have kept := confined.directories q directory
      rw [same, if_neg]
      · exact kept
      · rintro rfl
        exact leaf kept
    · rw [same, if_neg]
      · exact confined.outside q outside
      · rintro rfl
        exact outside within
    · obtain ⟨target, time, found⟩ := symlinked
      rw [same] at found
      split at found
      · cases found
      · exact confined.links q inside ⟨target, time, found⟩
  · rw [Tree.erase, dif_neg leaf]
    exact confined

theorem createDir (confined : Confined linked b start t)
    (inside : ∀ l, t.resolve false p = .ok l → t.node l = none → b <+: l) (done : t.createDir p = .ok next) :
    Confined linked b start next := by
  unfold Tree.createDir at done
  split at done
  · cases done
  next l reached =>
    split at done
    · cases done
    next absent =>
      cases done
      exact confined.put (inside l reached absent) fun link => by cases link

theorem create (confined : Confined linked b start t) (inside : ∀ l, t.resolve true p = .ok l → b <+: l)
    {now : Int} (done : t.create now p = .ok (l, next)) : Confined linked b start next ∧ b <+: l := by
  unfold Tree.create at done
  split at done
  · cases done
  next q reached =>
    split at done
    · cases done
    · cases done
    · cases done
      exact ⟨confined.put (inside _ reached) (fun link => by cases link), inside _ reached⟩

theorem append (confined : Confined linked b start t) (within : b <+: l) (now : Int) (bytes : Bytes) :
    Confined linked b start (t.append now l bytes) := by
  unfold Tree.append
  split
  · exact confined.put within fun link => by cases link
  · exact confined

theorem removeFile (confined : Confined linked b start t) (inside : ∀ l, t.resolve false p = .ok l → b <+: l)
    (done : t.removeFile p = .ok next) : Confined linked b start next := by
  unfold Tree.removeFile at done
  split at done
  · cases done
  next l reached =>
    split at done
    · cases done
    · cases done
    · cases done
      exact confined.erase (inside l reached)

/-- What is moved is no symlink, so no place is linked that was not. -/
theorem rename (confined : Confined linked b start t) {source target : PathBuf}
    (leaves : ∀ l, t.resolve false source = .ok l → b <+: l ∧ ¬ t.Symlinked l)
    (arrives : ∀ l, t.resolve false target = .ok l → b <+: l) (done : t.rename source target = .ok next) :
    Confined linked b start next := by
  unfold Tree.rename at done
  split at done
  · cases done
  · cases done
  next l q left right =>
    split at done
    · cases done
    · cases done
    next node notDirectory present =>
      split at done
      · cases done
      · split at done
        · cases done
          exact confined
        · cases done
          refine (confined.erase (leaves l left).1).put (arrives q right) fun link => ?_
          cases node with
          | symlink target time => exact absurd ⟨target, time, present⟩ (leaves l left).2
          | _ => cases link

theorem symlink (confined : Confined linked b start t) {now : Int} {target : OsText}
    (inside : ∀ l, t.resolve false p = .ok l → b <+: l ∧ linked l) (done : t.symlink now target p = .ok next) :
    Confined linked b start next := by
  unfold Tree.symlink at done
  split at done
  · cases done
  · split at done
    · cases done
    · split at done
      · cases done
      next l reached =>
        split at done
        · cases done
        · cases done
          exact confined.put (inside l reached).1 fun _ => (inside l reached).2

end Confined

/-- The components of what lies below a base follow the components of the base. -/
theorem components_openEnd {base names : PathBuf} (nonempty : base ≠ []) (notEmpty : base ≠ [[]])
    (more : names ≠ []) : components (openEnd base ++ names) = components base ++ names.filterMap componentOf := by
  have start : (openEnd base ++ names).head? = base.head? ∧ isAbsolute (openEnd base ++ names) = isAbsolute base := by
    obtain ⟨name, rest, rfl⟩ := List.exists_cons_of_ne_nil more
    rcases openEnd_cases base with ⟨front, rfl, same⟩ | ⟨-, same⟩
    · obtain ⟨first, others, rfl⟩ := List.exists_cons_of_ne_nil
        (show front ≠ [] by rintro rfl; exact notEmpty rfl)
      rw [same]
      cases others <;> cases first <;> exact ⟨rfl, rfl⟩
    · rw [same]
      exact ⟨List.head?_append_of_ne_nil _ nonempty, isAbsolute_append nonempty notEmpty⟩
  simp only [components, start.1, start.2, List.filterMap_append, filterMap_openEnd]
  split
  · rfl
  · split <;> rfl

section Below

variable {linked : Location → Prop} {b q : Location} {start t : Tree} {base names : PathBuf} {follow : Bool}

/-- Names that stay below the base lead to where they say. -/
theorem Confined.resolve_below (confined : Confined linked b start t) (anchored : Anchored start base b)
    (some : names ≠ []) (stays : StaysBelow linked b follow b names)
    (found : t.resolve follow (openEnd base ++ names) = .ok q) : q = place b names ∧ b <+: q := by
  obtain ⟨left, after⟩ := resolve_openEnd (anchored.2 t confined.toChangedBelow) (confined.directories b anchored.1)
  exact walk_staysBelow confined.links (List.prefix_refl b) stays (after follow names q some found)

/-- What is reached without any symlink is no symlink. -/
theorem Confined.resolve_unlinked (confined : Confined linked b start t) (anchored : Anchored start base b)
    (some : names ≠ []) (stays : StaysBelow linked b true b names)
    (found : t.resolve false (openEnd base ++ names) = .ok q) : ¬ t.Symlinked q := by
  have directory := confined.directories b anchored.1
  obtain ⟨left, after⟩ := resolve_openEnd (anchored.2 t confined.toChangedBelow) directory
  have walked := after false names q some found
  have unfollowed := @walk_unfollowed _ _ _ _ _ (resolveFrom t.node true left) (resolveFrom t.node false left)
    confined.links (List.prefix_refl b) stays
  rw [← unfollowed] at walked
  have settled := walk_settled (fun _ _ _ => resolveFrom_settled left) directory walked
  rintro ⟨target, time, link⟩
  exact settled.followed target time link

/-- A directory that is missing on the way to a place below the base lies below the base. -/
theorem Confined.createDir_leads (confined : Confined linked b start t) (anchored : Anchored start base b)
    (some : names ≠ []) (stays : StaysBelow linked b follow b names) {front : List Component}
    (before : front <+: (components (openEnd base ++ names)).dropLast)
    (found : t.resolve false (ofComponents front) = .ok q) (absent : t.node q = none) : b <+: q := by
  have reached := anchored.2 t confined.toChangedBelow
  have directory := confined.directories b anchored.1
  obtain ⟨nonempty, notEmpty⟩ := resolve_nonempty reached
  rw [components_openEnd nonempty notEmpty some] at before
  by_cases way : front <+: components base
  · exact absurd absent (resolve_leads reached directory way found)
  · have longer : components base <+: front :=
      (List.prefix_or_prefix_of_prefix (before.trans (List.dropLast_prefix _)) (List.prefix_append ..)).resolve_left way
    obtain ⟨more, rfl⟩ := longer
    have deeper : more ≠ [] := by
      rintro rfl
      rw [List.append_nil] at way
      exact way (List.prefix_refl _)
    obtain ⟨tail, whole⟩ := before.trans (List.dropLast_prefix _)
    rw [List.append_assoc] at whole
    have cut := List.append_cancel_left whole
    have rest : tail ≠ [] := by
      rintro rfl
      rw [List.append_nil] at cut
      rw [cut] at before
      have lengths := before.length_le
      rw [List.length_dropLast] at lengths
      have positive := List.length_pos_iff.mpr deeper
      rw [← cut, List.length_append] at lengths
      omega
    have texts := filterMap_componentOf_text names
    rw [← cut, List.map_append] at texts
    have inner := stays.solid
    rw [← texts] at inner
    obtain ⟨left, after⟩ := resolve_components reached directory
    exact (walk_staysBelow confined.links (List.prefix_refl b) (inner.front (by simpa using rest)).unfollowed
      (after false more q deeper found)).2

end Below

end Tree
end FileSystem

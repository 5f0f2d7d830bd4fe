import AeordbSync.Push.ScanRules

namespace AeordbSync
open Characters OsPath FileSystem Effect

variable {ρ : Type} {env : Env ρ} {w : World ρ} {base : PathBuf} {l : Location}
  {exclusions : List PathBuf}

/-- A file or a symlink below the base that no child relationship owns. -/
structure Walkable (disk : Tree) (base : PathBuf) (l : Location) (exclusions : List PathBuf)
    (names : List OsText) : Prop where
  kind : ∃ node, disk.node (l ++ names) = some node ∧ (node.isFile || node.isSymlink) = true
  included : isLocalExcludedByChild (below base names) exclusions = false

/-- The walk has found exactly the entries of one region of the tree. -/
structure Walked (disk : Tree) (base : PathBuf) (l : Location) (exclusions : List PathBuf)
    (region : List OsText → Prop) (found : List PathBuf) : Prop where
  sound : ∀ entry ∈ found, ∃ names, region names ∧ Walkable disk base l exclusions names ∧
    entry = below base names
  complete : ∀ names, region names → Walkable disk base l exclusions names →
    below base names ∈ found
  nodup : found.Nodup

/-- The names of a walkable entry are names of the tree. -/
theorem Walkable.names {disk : Tree} {names : List OsText}
    (walkable : Walkable disk base l exclusions names) : ∀ name ∈ names, IsName name := by
  obtain ⟨node, present, -⟩ := walkable.kind
  exact disk.names_valid (by rw [present]; exact Option.some_ne_none _)

namespace Walked

variable {disk : Tree} {region other : List OsText → Prop} {found more : List PathBuf}

theorem nothing (none : ∀ names, region names → ¬ Walkable disk base l exclusions names) :
    Walked disk base l exclusions region [] where
  sound := fun _ inside => (List.not_mem_nil inside).elim
  complete := fun names inside walkable => absurd walkable (none names inside)
  nodup := List.nodup_nil

theorem congr (walked : Walked disk base l exclusions region found)
    (same : ∀ names, Walkable disk base l exclusions names → (region names ↔ other names)) :
    Walked disk base l exclusions other found where
  sound := by
    intro entry inside
    obtain ⟨names, here, walkable, equal⟩ := walked.sound entry inside
    exact ⟨names, (same names walkable).mp here, walkable, equal⟩
  complete := fun names here walkable =>
    walked.complete names ((same names walkable).mpr here) walkable
  nodup := walked.nodup

theorem append (first : Walked disk base l exclusions region found)
    (second : Walked disk base l exclusions other more)
    (apart : ∀ names, region names → ¬ other names) :
    Walked disk base l exclusions (fun names => region names ∨ other names) (found ++ more) where
  sound := by
    intro entry inside
    rcases List.mem_append.mp inside with early | late
    · obtain ⟨names, here, rest⟩ := first.sound entry early
      exact ⟨names, Or.inl here, rest⟩
    · obtain ⟨names, here, rest⟩ := second.sound entry late
      exact ⟨names, Or.inr here, rest⟩
  complete := by
    rintro names (here | here) walkable
    · exact List.mem_append_left _ (first.complete names here walkable)
    · exact List.mem_append_right _ (second.complete names here walkable)
  nodup := by
    refine List.nodup_append'.mpr ⟨first.nodup, second.nodup, fun entry early late => ?_⟩
    obtain ⟨names, here, walkable, rfl⟩ := first.sound entry early
    obtain ⟨again, there, reachable, equal⟩ := second.sound _ late
    rw [below_injective base walkable.names reachable.names equal] at here
    exact apart again here there

theorem single {names : List OsText} (walkable : Walkable disk base l exclusions names) :
    Walked disk base l exclusions (· = names) [below base names] where
  sound := by
    intro entry inside
    exact ⟨names, rfl, walkable, List.mem_singleton.mp inside⟩
  complete := by
    rintro other rfl -
    exact List.mem_singleton.mpr rfl
  nodup := List.nodup_singleton _

end Walked

/-- Nothing lies below an entry that is not a directory. -/
theorem eq_of_walkable_below {names more : List OsText} {node : Node}
    (present : w.disk.node (l ++ names) = some node) (leaf : node ≠ .directory)
    (walkable : Walkable w.disk base l exclusions (names ++ more)) : more = [] := by
  by_contra deeper
  obtain ⟨found, inside, -⟩ := walkable.kind
  rw [← List.append_assoc] at inside
  have above := w.disk.node_above deeper (by rw [inside]; exact Option.some_ne_none _)
  rw [present, Option.some.injEq] at above
  exact leaf above

theorem readDisk_known {α : Type} {call : DiskCall} {path : PathBuf} {f : Tree → Except IoError α} {a : α}
    (known : f w.disk = .ok a) :
    Triple (Unmoved w) (orFail (readDisk env call path f)) (fun b next => Unmoved w next ∧ b = a)
      (fun _ => Unmoved w) := by
  refine orFail_triple (readDisk_unmoved.strengthen fun r next holds => ?_)
  rcases holds with ⟨unmoved, equal | ⟨error, tick, equal, -⟩⟩
  · rw [equal, known]
    exact ⟨unmoved, rfl⟩
  · rw [equal]
    exact unmoved

section Walk

variable (reaches : w.disk.Reaches base l)
include reaches

/-- The entries of one directory, of which some names remain. -/
theorem walkEntries_walked {enter : PathBuf → Program ρ (List PathBuf)} {names rest : List OsText}
    (inside : ∀ name ∈ rest, w.disk.node (l ++ names ++ [name]) ≠ none) (distinct : rest.Nodup)
    (deeper : ∀ name ∈ rest, w.disk.node (l ++ (names ++ [name])) = some .directory →
      Triple (Unmoved w) (enter (below base (names ++ [name])))
        (fun found next => Unmoved w next ∧ Walked w.disk base l exclusions
          (fun all => ∃ more, more ≠ [] ∧ all = names ++ [name] ++ more) found) (fun _ => Unmoved w)) :
    Triple (Unmoved w) (walkEntries env exclusions enter (below base names) rest)
      (fun found next => Unmoved w next ∧ Walked w.disk base l exclusions
        (fun all => ∃ name ∈ rest, ∃ more, all = names ++ [name] ++ more) found) (fun _ => Unmoved w) := by
  induction rest with
  | nil =>
      refine Triple.ret fun _ unmoved => ⟨unmoved, Walked.nothing ?_⟩
      rintro all ⟨name, impossible, -⟩
      cases impossible
  | cons name rest ih =>
      have present := inside name (List.mem_cons_self ..)
      have valid : ∀ other ∈ names ++ [name], IsName other :=
        w.disk.names_valid (by rwa [← List.append_assoc])
      have joined : join (below base names) name = below base (names ++ [name]) :=
        join_below base (fun other early => valid other (List.mem_append_left _ early)) (valid name (by simp))
      obtain ⟨node, found⟩ := Option.ne_none_iff_exists'.mp present
      rw [List.append_assoc] at found
      have known : w.disk.metadata false (join (below base names) name) = .ok node := by
        rw [joined]
        exact reaches.metadata_present (by simp) found
      have later := ih (fun other listed => inside other (List.mem_cons_of_mem _ listed))
        (List.nodup_cons.mp distinct).2 fun other listed => deeper other (List.mem_cons_of_mem _ listed)
      have here : Triple (Unmoved w)
          (walkEntry exclusions enter (join (below base names) name) node)
          (fun found next => Unmoved w next ∧ Walked w.disk base l exclusions
            (fun all => ∃ more, all = names ++ [name] ++ more) found) (fun _ => Unmoved w) := by
        rw [joined]
        have shut : isLocalExcludedByChild (below base (names ++ [name])) exclusions = true →
            Walked w.disk base l exclusions (fun all => ∃ more, all = names ++ [name] ++ more) [] := by
          intro excluded
          refine Walked.nothing ?_
          rintro all ⟨more, rfl⟩ walkable
          have covered := isLocalExcludedByChild_below walkable.names excluded
          rw [walkable.included] at covered
          cases covered
        have leaf : node ≠ .directory → (node.isFile || node.isSymlink) = true →
            isLocalExcludedByChild (below base (names ++ [name])) exclusions = false →
            Walked w.disk base l exclusions (fun all => ∃ more, all = names ++ [name] ++ more)
              [below base (names ++ [name])] := by
          intro notDirectory kind included
          refine (Walked.single ⟨⟨node, found, kind⟩, included⟩).congr fun all walkable => ?_
          constructor
          · rintro rfl
            exact ⟨[], by simp⟩
          · rintro ⟨more, rfl⟩
            rw [eq_of_walkable_below found notDirectory walkable, List.append_nil]
        cases node with
        | special =>
            refine Triple.ret fun _ unmoved => ⟨unmoved, Walked.nothing ?_⟩
            rintro all ⟨more, rfl⟩ walkable
            have last := eq_of_walkable_below found (by simp) walkable
            rw [last, List.append_nil] at walkable
            obtain ⟨other, equal, kind⟩ := walkable.kind
            rw [found, Option.some.injEq] at equal
            rw [← equal] at kind
            cases kind
        | directory =>
            refine Triple.ite (fun excluded => Triple.ret fun _ unmoved => ⟨unmoved, shut excluded⟩) fun _ => ?_
            refine (deeper name (List.mem_cons_self ..) found).strengthen fun list next holds =>
              ⟨holds.1, holds.2.congr fun all walkable => ?_⟩
            constructor
            · rintro ⟨more, -, equal⟩
              exact ⟨more, equal⟩
            · rintro ⟨more, rfl⟩
              refine ⟨more, ?_, rfl⟩
              rintro rfl
              obtain ⟨other, equal, kind⟩ := walkable.kind
              rw [List.append_nil, found, Option.some.injEq] at equal
              rw [← equal] at kind
              cases kind
        | file content time =>
            exact Triple.ite (fun excluded => Triple.ret fun _ unmoved => ⟨unmoved, shut excluded⟩)
              fun included => Triple.ret fun _ unmoved => ⟨unmoved, leaf (by simp) rfl (by simpa using included)⟩
        | symlink target time =>
            exact Triple.ite (fun excluded => Triple.ret fun _ unmoved => ⟨unmoved, shut excluded⟩)
              fun included => Triple.ret fun _ unmoved => ⟨unmoved, leaf (by simp) rfl (by simpa using included)⟩
      refine Triple.bind (readDisk_known (a := ()) rfl) fun _ => ?_
      refine Triple.bind ((readDisk_known known).weaken fun _ holds => holds.1) fun read => ?_
      refine Triple.assume (fun _ holds => holds.2) fun equal => ?_
      subst read
      refine Triple.weaken (P := Unmoved w) ?_ fun _ holds => holds.1
      refine Triple.bind here fun first => ?_
      refine Triple.assume (fun _ holds => holds.2) fun firstWalked => ?_
      refine Triple.bind (later.weaken fun _ holds => holds.1) fun others => ?_
      refine Triple.ret fun _ holds => ⟨holds.1, (firstWalked.append holds.2 ?_).congr fun all _ => ?_⟩
      · rintro all ⟨more, rfl⟩ ⟨other, listed, tail, equal⟩
        rw [List.append_assoc, List.append_assoc] at equal
        have heads := List.append_cancel_left equal
        simp only [List.singleton_append, List.cons.injEq] at heads
        rw [← heads.1] at listed
        exact (List.nodup_cons.mp distinct).1 listed
      · simp only [List.mem_cons, exists_eq_or_imp]

/-- The fuel that is left reaches below every directory that is left. -/
theorem walkRecursive_walked (fuel : Nat) {names : List OsText}
    (directory : w.disk.node (l ++ names) = some .directory)
    (enough : w.disk.depth < fuel + (l ++ names).length) :
    Triple (Unmoved w) (walkRecursive env exclusions fuel (below base names))
      (fun found next => Unmoved w next ∧ Walked w.disk base l exclusions
        (fun all => ∃ more, more ≠ [] ∧ all = names ++ more) found) (fun _ => Unmoved w) := by
  induction fuel generalizing names with
  | zero =>
      have short := w.disk.length_le_depth (l := l ++ names) (by rw [directory]; exact Option.some_ne_none _)
      omega
  | succ fuel ih =>
      have valid : ∀ name ∈ names, IsName name :=
        w.disk.names_valid (by rw [directory]; exact Option.some_ne_none _)
      have resolved : w.disk.resolve true (below base names) = .ok (l ++ names) := by
        rcases List.eq_nil_or_concat names with rfl | ⟨front, last, rfl⟩
        · rw [List.append_nil]
          exact reaches.here
        · refine reaches.resolve_below (by simp) valid ?_ true fun _ target time link => ?_
          · rw [List.concat_eq_append, List.dropLast_concat]
            have present : w.disk.node (l ++ front ++ [last]) ≠ none := by
              rw [List.append_assoc, ← List.concat_eq_append, directory]
              exact Option.some_ne_none _
            exact w.disk.node_parent present
          · rw [directory] at link
            cases link
      have listing : w.disk.readDir (below base names) = .ok (w.disk.children (l ++ names)) := by
        rw [Tree.readDir, resolved]
        simp only [directory]
      refine Triple.bind (readDisk_known listing) fun children => ?_
      refine Triple.assume (fun _ holds => holds.2) fun equal => ?_
      subst children
      refine Triple.bind (arrange_unmoved.weaken fun _ holds => holds.1) fun listed => ?_
      refine Triple.assume (fun _ holds => holds.2) fun perm => ?_
      refine Triple.weaken (P := Unmoved w) ?_ fun _ holds => holds.1
      refine (walkEntries_walked reaches (fun name inside => ?_)
        (perm.nodup_iff.mpr (w.disk.children_nodup _)) fun name _ found => ?_).strengthen
          fun found next holds => ⟨holds.1, ?_⟩
      · exact (w.disk.mem_children _ name).mp (perm.mem_iff.mp inside)
      · refine (ih found ?_).strengthen fun _ _ holds => holds
        simp only [List.length_append, List.length_singleton] at enough ⊢
        omega
      · refine holds.2.congr fun all walkable => ?_
        constructor
        · rintro ⟨name, -, more, rfl⟩
          exact ⟨name :: more, by simp, by simp⟩
        · rintro ⟨more, deeper, rfl⟩
          obtain ⟨name, tail, rfl⟩ := List.exists_cons_of_ne_nil deeper
          refine ⟨name, perm.mem_iff.mpr ((w.disk.mem_children _ name).mpr ?_), tail, by simp⟩
          obtain ⟨node, present, -⟩ := walkable.kind
          by_cases last : tail = []
          · rw [last, ← List.append_assoc] at present
            rw [present]
            exact Option.some_ne_none _
          · have split : l ++ (names ++ name :: tail) = l ++ names ++ [name] ++ tail := by simp
            rw [split] at present
            rw [w.disk.node_above last (by rw [present]; exact Option.some_ne_none _)]
            exact Option.some_ne_none _

end Walk

/-- A walk that returns has found every file and symlink of the tree that no child owns. -/
theorem walkdir_walked :
    Triple (Unmoved w) (walkdir env base exclusions)
      (fun found next => Unmoved w next ∧ ∃ l, w.disk.Reaches base l ∧
        Walked w.disk base l exclusions (· ≠ []) found) (fun _ => Unmoved w) := by
  refine Triple.bind (Q := fun v next => Unmoved w next ∧ v.disk = w.disk)
    (Triple.get fun _ unmoved => ⟨unmoved, unmoved.disk⟩) fun v => ?_
  refine Triple.assume (fun _ holds => holds.2) fun same => ?_
  rw [same]
  refine Triple.weaken (P := Unmoved w) ?_ fun _ holds => holds.1
  by_cases reached : ∃ l, w.disk.resolve true base = .ok l ∧ w.disk.node l = some .directory
  · obtain ⟨l, resolved, directory⟩ := reached
    have reaches := Tree.reaches_of_resolve resolved directory
    have start : w.disk.node (l ++ []) = some .directory := by rwa [List.append_nil]
    refine (walkRecursive_walked reaches (w.disk.depth + 1) start (by omega)).strengthen
      fun found next holds => ⟨holds.1, l, reaches, holds.2.congr fun names _ => ?_⟩
    simp
  · refine Triple.bind (Q := fun _ _ => False) (orFail_triple (readDisk_unmoved.strengthen
      fun r next holds => ?_)) fun _ => fun _ impossible => impossible.elim
    rcases holds with ⟨unmoved, equal | ⟨error, tick, equal, -⟩⟩
    · obtain ⟨error, refused⟩ := Tree.readDir_refused reached
      rw [equal, refused]
      exact unmoved
    · rw [equal]
      exact unmoved

end AeordbSync

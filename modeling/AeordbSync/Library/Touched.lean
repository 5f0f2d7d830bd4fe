import AeordbSync.Library.Neighbours

namespace FileSystem
open Characters OsPath

/-- Where nothing is linked at the end, the end may be followed. -/
theorem StaysBelow.followed {linked : Location → Prop} {base l : Location} {p : PathBuf}
    (stays : StaysBelow linked base false l p) (plain : ¬ linked (place l p)) : StaysBelow linked base true l p := by
  induction p generalizing l with
  | nil => trivial
  | cons segment rest ih =>
      unfold StaysBelow at stays ⊢
      unfold place at plain
      split at stays
      next idle =>
        rw [if_pos idle] at plain ⊢
        exact ih stays plain
      next moves =>
        rw [if_neg moves] at plain ⊢
        split at stays
        next up =>
          rw [if_pos up] at plain ⊢
          exact ⟨stays.1, ih stays.2 plain⟩
        next down =>
          rw [if_neg down] at plain ⊢
          refine ⟨Or.inr ?_, ih stays.2 plain⟩
          rcases stays.1 with ⟨rfl, -⟩ | free
          · exact plain
          · exact free

namespace Tree

variable {t next : Tree} {p : PathBuf} {l : Location}

/-- The trees agree everywhere but at one location. -/
def TouchedAt (t next : Tree) (l : Location) : Prop := ∀ q, q ≠ l → next.node q = t.node q

theorem touchedAt_put (t : Tree) (l : Location) (node : Node) : TouchedAt t (t.put l node) l :=
  fun _ other => t.node_put_ne other

theorem touchedAt_erase (t : Tree) (l : Location) : TouchedAt t (t.erase l) l :=
  fun _ other => t.node_erase_ne other

theorem createDir_touches (done : t.createDir p = .ok next) :
    ∃ l, t.resolve false p = .ok l ∧ t.node l = none ∧ TouchedAt t next l := by
  unfold createDir at done
  split at done
  · cases done
  next l reached =>
    split at done
    · cases done
    next absent =>
      cases done
      exact ⟨l, reached, absent, t.touchedAt_put l _⟩

theorem removeFile_touches (done : t.removeFile p = .ok next) :
    ∃ l, t.resolve false p = .ok l ∧ next.node l = none ∧ TouchedAt t next l := by
  unfold removeFile at done
  split at done
  · cases done
  next l reached =>
    split at done
    · cases done
    · cases done
    next node leaf present =>
      cases done
      have plain : t.node l ≠ some .directory := by
        rw [present]
        exact fun same => leaf (Option.some.inj same)
      refine ⟨l, reached, ?_, t.touchedAt_erase l⟩
      rw [t.node_erase plain, if_pos rfl]

/-- The new symlink stands where its path leads. -/
theorem symlink_touches {now : Int} {target : OsText} (cut : ∀ segment ∈ p, slash ∉ segment)
    (done : t.symlink now target p = .ok next) : ∃ l, t.resolve false p = .ok l ∧
      next.node l = some (.symlink target now) ∧ TouchedAt t next l := by
  unfold symlink at done
  split at done
  · cases done
  · split at done
    · cases done
    · split at done
      · cases done
      next l reached =>
        split at done
        · cases done
        next absent =>
          cases done
          have free : t.node l ≠ some .directory := by
            rw [absent]
            exact (Option.some_ne_none _).symm
          refine ⟨l, reached, ?_, t.touchedAt_put l _⟩
          rw [t.node_put (placeable_of_named cut reached free), if_pos rfl]

/-- What has been read is the content of a file at the end of the path. -/
theorem read_eq_ok {content : Bytes} (read : t.read p = .ok content) :
    ∃ l time, t.resolve true p = .ok l ∧ t.node l = some (.file content time) := by
  unfold Tree.read metadata at read
  cases reached : t.resolve true p with
  | error error =>
      rw [reached] at read
      cases read
  | ok l =>
      rw [reached] at read
      dsimp only at read
      cases here : t.node l with
      | none =>
          rw [here] at read
          cases read
      | some node =>
          rw [here] at read
          cases node with
          | file bytes time =>
              cases read
              exact ⟨l, time, rfl, here⟩
          | directory | symlink | special => cases read

/-- Names lead to the location that they spell. -/
theorem place_names {names : List OsText} (valid : ∀ name ∈ names, IsName name) (l : Location) :
    place l names = l ++ names := by
  induction names generalizing l with
  | nil => exact (List.append_nil l).symm
  | cons name rest ih =>
      obtain ⟨nonempty, notDot, notParent, -⟩ := valid name (List.mem_cons_self ..)
      rw [place, if_neg (not_or.mpr ⟨nonempty, notDot⟩), if_neg notParent,
        ih (fun other inside => valid other (List.mem_cons_of_mem _ inside)), List.append_assoc, List.singleton_append]

theorem solid_names {names : List OsText} (valid : ∀ name ∈ names, IsName name) : solid names = names := by
  refine List.filter_eq_self.mpr fun name inside => ?_
  obtain ⟨nonempty, notDot, -⟩ := valid name inside
  exact decide_eq_true ⟨nonempty, notDot⟩

theorem place_append (l : Location) (p names : PathBuf) : place l (p ++ names) = place (place l p) names := by
  induction p generalizing l with
  | nil => rfl
  | cons segment rest ih =>
      simp only [List.cons_append, place, ih]
      split_ifs <;> rfl

/-- A longer last name leads elsewhere. -/
theorem place_beside {names : List OsText} {suffix : OsText} (valid : ∀ name ∈ names, IsName name)
    (nonempty : names ≠ []) (enough : 2 ≤ suffix.length) (l : Location) :
    place l (pushText names suffix) ≠ place l names := by
  obtain ⟨front, last, rfl⟩ := (List.eq_nil_or_concat names).resolve_left nonempty
  rw [List.concat_eq_append] at valid ⊢
  have positive := List.length_pos_iff.mpr (valid last (by simp)).1
  have long : 3 ≤ (last ++ suffix).length := by
    rw [List.length_append]
    omega
  have moves : ¬ (last ++ suffix = [] ∨ last ++ suffix = dot) := by
    rintro (short | short) <;> rw [short] at long <;> exact absurd long (by decide)
  have down : last ++ suffix ≠ dot ++ dot := by
    intro short
    rw [short] at long
    exact absurd long (by decide)
  have pushed : pushText (front ++ [last]) suffix = front ++ [last ++ suffix] := by simp [pushText]
  rw [pushed, place_names valid, place_append, place_names fun name inside => valid name (List.mem_append_left _ inside),
    place, if_neg moves, if_neg down, place, List.append_assoc]
  intro same
  have lasts := List.append_cancel_left (List.append_cancel_left same)
  have size := congrArg List.length (List.singleton_inj.mp lasts)
  rw [List.length_append] at size
  omega

/-- Nothing stands where a path leads that has no metadata. -/
theorem Reaches.absent {base : PathBuf} (reaches : t.Reaches base l) {names : List OsText} (nonempty : names ≠ [])
    (follow : Bool) (plain : follow = true → ¬ t.Symlinked (l ++ names)) {error : IoError}
    (unread : t.metadata follow (OsPath.below base names) = .error error) : t.node (l ++ names) = none := by
  by_contra present
  have parent : t.node (l ++ names.dropLast) = some .directory := by
    obtain ⟨front, last, rfl⟩ := (List.eq_nil_or_concat names).resolve_left nonempty
    rw [List.concat_eq_append, ← List.append_assoc] at present
    rw [List.concat_eq_append, List.dropLast_concat]
    exact t.node_parent present
  have resolved := reaches.resolve_below nonempty (t.names_valid present) parent follow
    fun follows target time link => plain follows ⟨target, time, link⟩
  unfold metadata at unread
  rw [resolved] at unread
  cases here : t.node (l ++ names) with
  | none => exact present here
  | some node =>
      simp only [here] at unread
      cases unread

section Below

variable {linked : Location → Prop} {b q : Location} {start : Tree} {base names : PathBuf} {follow : Bool}

theorem ChangedBelow.reaches (changed : ChangedBelow b start t) (anchored : Anchored start base b) : t.Reaches base b :=
  reaches_of_resolve (anchored.2 t changed) (changed.directories b anchored.1)

/-- A directory that is missing on the way to a place below the base has a place on that way. -/
theorem Confined.createDir_place (confined : Confined linked b start t) (anchored : Anchored start base b)
    (some : names ≠ []) (stays : StaysBelow linked b follow b names) {front : List Component}
    (before : front <+: (components (openEnd base ++ names)).dropLast)
    (found : t.resolve false (ofComponents front) = .ok q) (absent : t.node q = none) :
    ∃ way rest, solid names = way ++ rest ∧ rest ≠ [] ∧ q = place b way := by
  have reached := anchored.2 t confined.toChangedBelow
  have directory := confined.directories b anchored.1
  obtain ⟨nonempty, notEmpty⟩ := resolve_nonempty reached
  rw [components_openEnd nonempty notEmpty some] at before
  by_cases way : front <+: components base
  · exact absurd absent (resolve_leads reached directory way found)
  have longer : components base <+: front :=
    (List.prefix_or_prefix_of_prefix (before.trans (List.dropLast_prefix _)) (List.prefix_append ..)).resolve_left way
  obtain ⟨more, rfl⟩ := longer
  have deeper : more ≠ [] := by
    rintro rfl
    rw [List.append_nil] at way
    exact way (List.prefix_refl _)
  obtain ⟨tail, whole⟩ := before.trans (List.dropLast_prefix _)
  rw [List.append_assoc] at whole
  have cut := List.append_cancel_left whole
  have rest : tail ≠ [] := by
    rintro rfl
    rw [List.append_nil] at cut
    have lengths := before.length_le
    have positive := List.length_pos_iff.mpr deeper
    rw [List.length_dropLast, ← cut, List.length_append] at lengths
    omega
  have texts := filterMap_componentOf_text names
  rw [← cut, List.map_append] at texts
  have inner := stays.solid
  rw [← texts] at inner
  obtain ⟨left, after⟩ := resolve_components reached directory
  refine ⟨more.map Component.text, tail.map Component.text, texts.symm, by simpa using rest, ?_⟩
  exact (walk_staysBelow confined.links (List.prefix_refl b) (inner.front (by simpa using rest)).unfollowed
    (after false more q deeper found)).1

end Below

end Tree
end FileSystem

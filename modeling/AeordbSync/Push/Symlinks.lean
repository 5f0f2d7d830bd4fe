import AeordbSync.Push.Sync
import AeordbSync.Reference
import AeordbSync.Routes.RemoteFiles

namespace AeordbSync
open Characters OsPath FileSystem Effect

/-- The segment that a path ends with once each ".." has taken a segment before it. The segments are given from
the last to the first, with the number of those that are still to be taken. -/
def lastKept : List Text → Nat → Option Text
  | [], _ => none
  | segment :: earlier, taken =>
      if segment = text "." then lastKept earlier taken
      else if segment = text ".." then lastKept earlier (taken + 1)
      else match taken with
        | 0 => some segment
        | rest + 1 => lastKept earlier rest

/-- The last segment that remains of a target does not end with whitespace. -/
def StableTarget (target : Text) : Prop :=
  ∀ segment ∈ lastKept (segmentsOf (trim (withoutNul target))).reverse 0, trimEnd segment = segment

theorem head_ofSegments (segments : List Text) (taken : Nat) :
    ((Ascent.ofSegments segments).names.drop taken).head? = lastKept segments.reverse taken := by
  induction segments using List.reverseRecOn generalizing taken with
  | nil => simp [Ascent.ofSegments, lastKept]
  | append_singleton segments last ih =>
      have whole : Ascent.ofSegments (segments ++ [last]) = (Ascent.ofSegments segments).step last := by
        simp [Ascent.ofSegments]
      rw [whole, List.reverse_concat, lastKept.eq_def, Ascent.step]
      simp only
      split
      · exact ih taken
      · split
        · rw [← ih (taken + 1)]
          cases (Ascent.ofSegments segments).names <;> simp
        · cases taken with
          | zero => simp
          | succ rest => exact ih rest

/-- Segments that are names lead down one after the other. -/
theorem descends_of_names {segments : List Text}
    (names : ∀ name ∈ segments, name ≠ text "." ∧ name ≠ text "..") :
    (Ascent.ofSegments segments).descends = segments := by
  induction segments using List.reverseRecOn with
  | nil => rfl
  | append_singleton segments last ih =>
      have whole : Ascent.ofSegments (segments ++ [last]) = (Ascent.ofSegments segments).step last := by
        simp [Ascent.ofSegments]
      have before := ih fun name inside => names name (List.mem_append_left _ inside)
      obtain ⟨here, up⟩ := names last (by simp)
      rw [Ascent.descends] at before ⊢
      rw [whole, Ascent.step, if_neg here, if_neg up, List.reverse_cons, before]

/-- The names of a path neither stay nor lead up. -/
theorem Ascent.foldl_plain {segments : List Text} {ascent : Ascent}
    (plain : ∀ name ∈ ascent.names, name ≠ text "." ∧ name ≠ text "..") :
    ∀ name ∈ (segments.foldl Ascent.step ascent).names, name ≠ text "." ∧ name ≠ text ".." := by
  induction segments generalizing ascent with
  | nil => exact plain
  | cons first rest ih =>
      apply ih
      intro name inside
      unfold Ascent.step at inside
      split at inside
      · exact plain name inside
      · split at inside
        · cases names : ascent.names with
          | nil => simp [names] at inside
          | cons last others =>
              rw [names] at inside
              exact plain name (names ▸ List.mem_cons_of_mem _ inside)
        · cases List.mem_cons.mp inside with
          | inl same =>
              subst same
              constructor <;> assumption
          | inr old => exact plain name old

theorem mem_joinWith {c d : Char} {parts : List Text} {part : Text} (inside : part ∈ parts) (present : d ∈ part) :
    d ∈ joinWith c parts := by
  induction parts with
  | nil => cases inside
  | cons first rest ih =>
      cases rest with
      | nil =>
          rw [List.mem_singleton] at inside
          rw [joinWith_singleton, ← inside]
          exact present
      | cons second more =>
          rw [joinWith_cons]
          cases List.mem_cons.mp inside with
          | inl same => exact List.mem_append_left _ (same ▸ present)
          | inr later => exact List.mem_append_right _ (List.mem_cons_of_mem _ (ih later))

/-- The characters of a segment are characters of the path. -/
theorem mem_of_mem_segmentsOf {path segment : Text} {c : Char} (inside : segment ∈ segmentsOf path)
    (present : c ∈ segment) : c ∈ path := by
  have whole : joinWith '/' (path.splitOn '/') = path := List.intercalate_splitOn '/'
  rw [← whole]
  exact mem_joinWith (List.mem_filter.mp inside).1 present

theorem mem_of_mem_trim {path : Text} {c : Char} (inside : c ∈ trim path) : c ∈ path := by
  have back := (List.rdropWhile_prefix (p := isWhitespace) (path.dropWhile isWhitespace)).subset inside
  exact (List.dropWhile_suffix isWhitespace).subset back

/-- The names that the engine reads off a path. -/
structure EngineName (name : Text) : Prop where
  nonempty : name ≠ []
  unseparated : '/' ∉ name
  noNul : '\u0000' ∉ name
  stays : name ≠ text "."
  descends : name ≠ text ".."

theorem engineName_of_mem {path name : Text} (inside : name ∈ engineNames path) : EngineName name := by
  have segment := Ascent.mem_descends inside
  obtain ⟨nonempty, unseparated⟩ := segmentsOf_name segment
  obtain ⟨stays, descends⟩ := @Ascent.foldl_plain _ ⟨0, []⟩ (fun _ none => nomatch none) name
    (List.mem_reverse.mp inside)
  refine ⟨nonempty, unseparated, ?_, stays, descends⟩
  intro present
  have kept := mem_of_mem_trim (mem_of_mem_segmentsOf segment present)
  simp [withoutNul] at kept

theorem withoutNul_joinWith {names : List Text} (valid : ∀ name ∈ names, EngineName name) :
    withoutNul (joinWith '/' names) = joinWith '/' names := by
  apply List.filter_eq_self.mpr
  intro c inside
  apply decide_eq_true
  intro same
  subst same
  induction names with
  | nil => cases inside
  | cons first rest ih =>
      have head := (valid first (by simp)).noNul
      cases rest with
      | nil =>
          rw [joinWith_singleton] at inside
          exact head inside
      | cons second more =>
          rw [joinWith_cons] at inside
          cases List.mem_append.mp inside with
          | inl first => exact head first
          | inr later =>
              cases List.mem_cons.mp later with
              | inl separator => exact absurd separator (by decide)
              | inr tail => exact ih (fun name present => valid name (List.mem_cons_of_mem _ present)) tail

theorem segmentsOf_joinWith {names : List Text} (valid : ∀ name ∈ names, EngineName name) :
    segmentsOf (joinWith '/' names) = names := by
  by_cases empty : names = []
  · subst empty
    decide
  · rw [segmentsOf, splitOn_joinWith _ _ (fun name inside => (valid name inside).unseparated) empty]
    exact List.filter_eq_self.mpr fun name inside => decide_eq_true (valid name inside).nonempty

/-- The engine reads the same names off the path that they make, but for whitespace at the end of the last one. -/
theorem engineNames_joinWith {front : List Text} {last : Text} (valid : ∀ name ∈ front ++ [last], EngineName name) :
    engineNames ('/' :: joinWith '/' (front ++ [last])) =
      (Ascent.ofSegments (front ++ segmentsOf (trimEnd last))).descends := by
  rw [engineNames_rooted, withoutNul_joinWith valid]
  congr 2
  by_cases empty : front = []
  · subst empty
    rw [List.nil_append, joinWith_singleton, List.nil_append]
  · rw [joinWith_append _ empty (List.cons_ne_nil last []), joinWith_singleton, trimEnd_append, segmentsOf_append,
      segmentsOf_joinWith fun name inside => valid name (List.mem_append_left _ inside)]

theorem trimEnd_isPrefix (t : Text) : trimEnd t <+: t := List.rdropWhile_prefix isWhitespace t

/-- What follows the names before the last one is that name or something else. -/
theorem descends_last {front : List Text} {last : Text} (valid : ∀ name ∈ front ++ [last], EngineName name) :
    (Ascent.ofSegments (front ++ segmentsOf (trimEnd last))).descends = front ++ [last] ↔ trimEnd last = last := by
  have plain : ∀ name ∈ front ++ [last], name ≠ text "." ∧ name ≠ text ".." :=
    fun name inside => ⟨(valid name inside).stays, (valid name inside).descends⟩
  have before := descends_of_names fun name inside => plain name (List.mem_append_left _ inside)
  have ended := valid last (by simp)
  constructor
  · intro same
    by_cases empty : trimEnd last = []
    · rw [empty] at same
      have none : segmentsOf [] = [] := by decide
      rw [none, List.append_nil, before] at same
      simp at same
    · have alone : segmentsOf (trimEnd last) = [trimEnd last] := by
        have free : '/' ∉ trimEnd last := fun inside => ended.unseparated ((trimEnd_isPrefix last).subset inside)
        have parts := splitOn_joinWith '/' [trimEnd last] (by simpa using free) (by simp)
        rw [joinWith_singleton] at parts
        rw [segmentsOf, parts]
        simp [empty]
      have whole : Ascent.ofSegments (front ++ [trimEnd last]) = (Ascent.ofSegments front).step (trimEnd last) := by
        simp [Ascent.ofSegments]
      rw [alone, Ascent.descends, whole, Ascent.step] at same
      rw [Ascent.descends] at before
      split at same
      · rw [before] at same
        simp at same
      · split at same
        · have lengths := congrArg List.length same
          have earlier := congrArg List.length before
          cases names : (Ascent.ofSegments front).names with
          | nil => simp [names] at lengths
          | cons first rest =>
              simp only [names, List.length_reverse, List.length_append, List.length_cons,
                List.length_nil] at lengths earlier
              omega
        · rw [List.reverse_cons, before] at same
          simpa using same
  · intro same
    have alone : segmentsOf last = [last] := by
      have parts := @segmentsOf_joinWith [last] (by simpa using ended)
      rwa [joinWith_singleton] at parts
    rw [same, alone]
    exact descends_of_names plain

/-- The last segment that is kept is the last name that the engine reads. -/
theorem stableTarget_iff (target : Text) : StableTarget target ↔ ∀ last ∈ (engineNames target).getLast?, trimEnd last = last := by
  have same : (engineNames target).getLast? = lastKept (segmentsOf (trim (withoutNul target))).reverse 0 := by
    rw [engineNames, Ascent.descends, List.getLast?_reverse, ← head_ofSegments, List.drop_zero]
  rw [StableTarget, same]

theorem rooted_injective {first second : List Text} (left : ∀ name ∈ first, EngineName name)
    (right : ∀ name ∈ second, EngineName name)
    (same : '/' :: joinWith '/' first = '/' :: joinWith '/' second) : first = second := by
  have parts := congrArg segmentsOf (List.cons.inj same).2
  rwa [segmentsOf_joinWith left, segmentsOf_joinWith right] at parts

/-- A normal form is its own normal form exactly when no whitespace ends it. -/
theorem normalize_idem_iff (target : Text) :
    normalizeRemotePathLikeEngine (normalizeRemotePathLikeEngine target) = normalizeRemotePathLikeEngine target ↔
      StableTarget target := by
  rw [stableTarget_iff, normalizeRemotePathLikeEngine_eq target, normalizeRemotePathLikeEngine_eq]
  have valid : ∀ name ∈ engineNames target, EngineName name := fun _ => engineName_of_mem
  have again : ∀ name ∈ engineNames ('/' :: joinWith '/' (engineNames target)), EngineName name :=
    fun _ => engineName_of_mem
  generalize engineNames target = names at valid again
  cases List.eq_nil_or_concat names with
  | inl none =>
      subst none
      decide
  | inr some =>
      obtain ⟨front, last, rfl⟩ := some
      rw [List.concat_eq_append] at valid again ⊢
      have reread := engineNames_joinWith valid
      constructor
      · intro same
        have names := rooted_injective again valid same
        rw [reread, descends_last valid] at names
        simpa using names
      · intro ends
        rw [reread, (descends_last valid).mpr (ends last (by simp))]

theorem symlinkIdentityHash_normalized {digest : Bytes → Text} (injective : Function.Injective digest)
    (path target : Text) :
    symlinkIdentityHash digest path (normalizeRemotePathLikeEngine target) = symlinkIdentityHash digest path target ↔
      StableTarget target := by
  rw [← normalize_idem_iff]
  constructor
  · intro same
    have texts := injective same
    rw [symlinkIdentityText, symlinkIdentityText] at texts
    exact utf8_injective (List.cons.inj (List.append_cancel_left texts)).2
  · intro same
    rw [symlinkIdentityHash, symlinkIdentityText, same]
    rfl

variable {ρ : Type} {env : Env ρ}

/-- A symlink is created with an event. -/
theorem createLink_ne (link : PendingSymlink) (w : World ρ) (remote : ρ) :
    createLink env link { w with remote := remote } ≠ (.ok false, { w with remote := remote }) := by
  intro same
  have answer := congrArg Prod.fst same
  unfold createLink at answer
  rw [Proc.bind_apply] at answer
  simp only [note, Proc.modify_apply] at answer
  rw [Proc.bind_apply] at answer
  split at answer
  · cases answer
  · cases answer

end AeordbSync

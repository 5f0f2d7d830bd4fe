import AeordbSync.Library.Prefixes
import AeordbSync.Relationships

namespace AeordbSync
open Characters OsPath

/-- The directories above an entry, from the root down. -/
def remoteDirectory (path : Text) : List Text := (path.splitOn '/').dropLast

/-- The entry lies in the directory of the relationship or in a directory below it. -/
def CoversRemote (relationship : SyncRelationship) (path : Text) : Prop :=
  remoteDirectory relationship.remotePath <+: remoteDirectory path

instance (relationship : SyncRelationship) (path : Text) : Decidable (CoversRemote relationship path) :=
  inferInstanceAs (Decidable (_ <+: _))

/-- Every remote path in the configuration has passed the normalisation. -/
def StoredPath (relationship : SyncRelationship) : Prop :=
  ∃ given, relationship.remotePath = normalizeRemotePath given

/-- The relationship handles the entry and leaves it to no child. -/
def OwnsRemote (relationships : List SyncRelationship) (relationship : SyncRelationship)
    (path : Text) : Prop :=
  CoversRemote relationship path ∧
    isExcludedByChild path (childExclusions relationship relationships) = false

theorem normalizeRemotePath_closed (given : Text) :
    ∃ base, normalizeRemotePath given = base ++ ['/'] := by
  unfold normalizeRemotePath
  extract_lets replaced rooted
  by_cases last : rooted.getLast? = some '/'
  · rw [if_pos last]
    exact List.getLast?_eq_some_iff.mp last
  · rw [if_neg last]
    exact ⟨rooted, rfl⟩

theorem remoteDirectory_closed (base : Text) : remoteDirectory (base ++ ['/']) = base.splitOn '/' := by
  rw [remoteDirectory, List.splitOn_append_cons_self, List.splitOn_nil, List.dropLast_concat]

/-- For stored paths the comparison of texts respects the boundaries of names. -/
theorem coversRemote_iff {relationship : SyncRelationship} (stored : StoredPath relationship)
    {path : Text} : CoversRemote relationship path ↔ relationship.remotePath <+: path := by
  obtain ⟨given, normal⟩ := stored
  obtain ⟨base, closed⟩ := normalizeRemotePath_closed given
  rw [CoversRemote, normal, closed, remoteDirectory_closed]
  constructor
  · rintro ⟨more, equal⟩
    obtain ⟨last, names⟩ : ∃ last, path.splitOn '/' = base.splitOn '/' ++ (more ++ [last]) := by
      refine ⟨(path.splitOn '/').getLast (List.splitOn_ne_nil _ _), ?_⟩
      rw [← List.append_assoc, equal, remoteDirectory, List.dropLast_append_getLast]
    have whole : joinWith '/' (path.splitOn '/') = path := List.intercalate_splitOn '/'
    have front : joinWith '/' (base.splitOn '/') = base := List.intercalate_splitOn '/'
    rw [names, joinWith_append _ (List.splitOn_ne_nil _ _) (by simp), front] at whole
    exact ⟨joinWith '/' (more ++ [last]), by rw [← whole]; simp⟩
  · rintro ⟨rest, rfl⟩
    rw [remoteDirectory, List.append_assoc, List.singleton_append, List.splitOn_append_cons_self,
      List.dropLast_append_of_ne_nil (List.splitOn_ne_nil _ _)]
    exact List.prefix_append _ _

/-- A path is left to a child exactly when another relationship covers it from further below. -/
theorem isExcludedByChild_childExclusions {relationship : SyncRelationship}
    {relationships : List SyncRelationship} {path : Text} :
    isExcludedByChild path (childExclusions relationship relationships) = true ↔
      ∃ other ∈ relationships, other.id ≠ relationship.id ∧
        other.remoteConnectionId = relationship.remoteConnectionId ∧
        relationship.remotePath <+: other.remotePath ∧ other.remotePath ≠ relationship.remotePath ∧
        other.remotePath <+: path := by
  rw [isExcludedByChild_iff]
  constructor
  · rintro ⟨exclusion, listed, above⟩
    obtain ⟨other, inside, equal⟩ := List.mem_filterMap.mp listed
    split at equal
    · cases equal
    next differs =>
      split at equal
      · cases equal
      next connected =>
        split at equal
        next nested =>
          rw [← Option.some.inj equal] at above
          exact ⟨other, inside, differs, not_not.mp connected, nested.1, nested.2, above⟩
        next => cases equal
  · rintro ⟨other, inside, differs, connected, nested, distinct, above⟩
    refine ⟨other.remotePath, List.mem_filterMap.mpr ⟨other, inside, ?_⟩, above⟩
    simp [differs, connected, nested, distinct]

/-- Among relationships with distinct roots every covered path has exactly one owner, and no root
that covers the path is longer than that of the owner. -/
theorem remoteOwner_unique (relationships : List SyncRelationship)
    (identified : (relationships.map SyncRelationship.id).Nodup)
    (connected : ∀ first ∈ relationships, ∀ second ∈ relationships,
      first.remoteConnectionId = second.remoteConnectionId)
    (stored : ∀ relationship ∈ relationships, StoredPath relationship)
    (distinct : (relationships.map SyncRelationship.remotePath).Nodup) (path : Text)
    (covered : ∃ relationship ∈ relationships, CoversRemote relationship path) :
    ∃ owner ∈ relationships, OwnsRemote relationships owner path ∧
      (∀ other ∈ relationships, OwnsRemote relationships other path → other = owner) ∧
      ∀ other ∈ relationships, CoversRemote other path →
        other.remotePath.length ≤ owner.remotePath.length := by
  have prefixed : ∃ relationship ∈ relationships, relationship.remotePath <+: path := by
    obtain ⟨relationship, inside, covers⟩ := covered
    exact ⟨relationship, inside, (coversRemote_iff (stored _ inside)).mp covers⟩
  obtain ⟨owner, inside, above, longest⟩ := Prefixes.exists_longest _ prefixed
  refine ⟨owner, inside, ⟨(coversRemote_iff (stored _ inside)).mpr above, ?_⟩, ?_, ?_⟩
  · apply Bool.eq_false_iff.mpr
    intro excluded
    obtain ⟨other, among, -, -, nested, different, below⟩ :=
      isExcludedByChild_childExclusions.mp excluded
    have shorter := longest other among below
    exact different (shorter.eq_of_length (le_antisymm shorter.length_le nested.length_le))
  · rintro other among ⟨covers, spared⟩
    have below := (coversRemote_iff (stored _ among)).mp covers
    by_contra differs
    have apart : ∀ {β : Type} (f : SyncRelationship → β), (relationships.map f).Nodup → f owner ≠ f other :=
      fun f once equal => differs (List.inj_on_of_nodup_map once among inside equal.symm)
    have excluded := isExcludedByChild_childExclusions.mpr ⟨owner, inside, apart _ identified,
      connected _ inside _ among, longest other among below, apart _ distinct, above⟩
    rw [spared] at excluded
    cases excluded
  · intro other among covers
    exact (longest other among ((coversRemote_iff (stored _ among)).mp covers)).length_le

def rootedAt (remotePath : String) : SyncRelationship where
  id := text remotePath
  name := text remotePath
  remoteConnectionId := text "engine"
  remotePath := text remotePath
  localPath := text "/home"
  direction := .bidirectional
  filter := none
  deletePropagation := ⟨true, true⟩
  enabled := true

def nestedRoots : List SyncRelationship :=
  [rootedAt "/", rootedAt "/docs/", rootedAt "/docs-old/", rootedAt "/docs/private/"]

theorem remoteOwner_unique_nestedRoots :
    ∃ owner ∈ nestedRoots, OwnsRemote nestedRoots owner (text "/docs/private/key") ∧
      (∀ other ∈ nestedRoots, OwnsRemote nestedRoots other (text "/docs/private/key") → other = owner) ∧
      ∀ other ∈ nestedRoots, CoversRemote other (text "/docs/private/key") →
        other.remotePath.length ≤ owner.remotePath.length := by
  refine remoteOwner_unique nestedRoots (by decide) (by decide) ?_ (by decide) _ (by decide)
  intro relationship inside
  have normal : ∀ relationship ∈ nestedRoots,
      relationship.remotePath = normalizeRemotePath relationship.remotePath := by decide
  exact ⟨_, normal relationship inside⟩

end AeordbSync

import AeordbSync.Configuration.Store
import AeordbSync.Hierarchy
import AeordbSync.Paths

namespace AeordbSync
open Characters

namespace Routes

def relationshipNotFound (id : Text) : ClientError := .notFound (text "relationship not found: " ++ id)

def connectionNotFound (id : Text) : ClientError := .notFound (text "connection not found: " ++ id)

/-- The relationship and the connection that its client is made from. -/
def loadRelationshipClient (config : ClientConfig) (relationshipId : Text) :
    Except ClientError (SyncRelationship × RemoteConnection) :=
  match config.relationship? relationshipId with
  | none => .error (relationshipNotFound relationshipId)
  | some relationship => match config.connection? relationship.remoteConnectionId with
    | none => .error (connectionNotFound relationship.remoteConnectionId)
    | some connection => .ok (relationship.toSyncRelationship, ConnectionManager.normalized connection)

def computeRemotePath (relationship : SyncRelationship) (relativePath : Text) : Text :=
  let base := trimEndMatches '/' relationship.remotePath
  let relative := trimStartMatches '/' (replaceBackslashes relativePath)
  if relative = [] then base ++ ['/'] else base ++ '/' :: relative

def computeRemotePaths (relationship : SyncRelationship) (relativePaths : List Text) : List Text :=
  relativePaths.map (computeRemotePath relationship)

end Routes

/-- The requests of the file routes that change something on the remote. -/
inductive FileRequest where
  | upload (path : Text)
  | delete (path : Text)
  | rename (source target : Text)
  | restore (path : Text)
  | restoreFromSnapshot (snapshotId path : Text)
  | copy (paths : List Text) (destination : Text)
  | symlink (path target : Text)

/-- The calls of the remote client, with the path fields as they are sent. -/
inductive EngineRequest where
  | uploadFile (path : Text)
  | deleteFile (path : Text)
  | renameFile (source target : Text)
  | restoreFile (path : Text)
  | restoreFromSnapshot (snapshotId path : Text)
  | copyFiles (paths : List Text) (destination : Text)
  | createSymlink (path target : Text)
  deriving DecidableEq

/-- Some calls write the path after a separator of their own. -/
def cleanPath (path : Text) : Text := '/' :: trimStartMatches '/' path

namespace EngineRequest

/-- The paths of the engine at which a call changes or reads an entry; a symlink may name any target. -/
def actsOn : EngineRequest → List Text
  | uploadFile path => [path]
  | deleteFile path => [path]
  | renameFile source target => [source, target]
  | restoreFile path => [path]
  | restoreFromSnapshot _ path => [path]
  | copyFiles paths destination => paths ++ [destination]
  | createSymlink path _ => [path]

end EngineRequest

namespace FileRequest

def toEngine (relationship : SyncRelationship) : FileRequest → EngineRequest
  | upload path => .uploadFile (Routes.computeRemotePath relationship path)
  | delete path => .deleteFile (Routes.computeRemotePath relationship path)
  | rename source target => .renameFile (cleanPath source) target
  | restore path => .restoreFile (Routes.computeRemotePath relationship path)
  | restoreFromSnapshot snapshotId path =>
      .restoreFromSnapshot snapshotId (Routes.computeRemotePath relationship path)
  | copy paths destination =>
      .copyFiles (Routes.computeRemotePaths relationship paths) (Routes.computeRemotePath relationship destination)
  | symlink path target => .createSymlink (cleanPath (Routes.computeRemotePath relationship path)) target

/-- What a route sends to the remote. -/
def send (config : ClientConfig) (relationshipId : Text) (request : FileRequest) :
    Except ClientError EngineRequest :=
  match Routes.loadRelationshipClient config relationshipId with
  | .error error => .error error
  | .ok (relationship, _) => .ok (request.toEngine relationship)

end FileRequest

/-- The engine acts on the root of the relationship or on what lies below it. -/
def FileRequest.StaysInside (relationship : SyncRelationship) (request : FileRequest) : Prop :=
  ∀ path ∈ (request.toEngine relationship).actsOn,
    isUnderRemoteBase (normalizeRemotePathLikeEngine path)
      (normalizeRemotePathLikeEngine relationship.remotePath) = true

instance (relationship : SyncRelationship) (request : FileRequest) : Decidable (request.StaysInside relationship) :=
  inferInstanceAs (Decidable (∀ path ∈ _, _))

/-- The names between the separators of a text. -/
def segmentsOf (path : Text) : List Text := (path.splitOn '/').filter (· ≠ [])

def trimEnd (t : Text) : Text := t.rdropWhile isWhitespace

/-- The engine drops these characters before it reads a path. -/
def withoutNul (path : Text) : Text := path.filter (· ≠ '\u0000')

/-- How far a path climbs above where it starts, and the names that it goes down from there. -/
structure Ascent where
  climbed : Nat
  names : List Text
  deriving DecidableEq

namespace Ascent

/-- The names are held from the last to the first. -/
def step (ascent : Ascent) (segment : Text) : Ascent :=
  if segment = text "." then ascent
  else if segment = text ".." then match ascent.names with
    | [] => ⟨ascent.climbed + 1, []⟩
    | _ :: rest => ⟨ascent.climbed, rest⟩
  else ⟨ascent.climbed, segment :: ascent.names⟩

def ofSegments (segments : List Text) : Ascent := segments.foldl step ⟨0, []⟩

def descends (ascent : Ascent) : List Text := ascent.names.reverse

end Ascent

/-- The directories that lead from the root of the engine to the entry. -/
def engineNames (path : Text) : List Text :=
  (Ascent.ofSegments (segmentsOf (trim (withoutNul path)))).descends

/-- What the path climbs above the root it goes down again. -/
def Returns (root : List Text) (path : Text) : Prop :=
  let ascent := Ascent.ofSegments (segmentsOf (trimEnd (withoutNul (replaceBackslashes path))))
  root.drop (root.length - ascent.climbed) <+: ascent.descends

instance (root : List Text) (path : Text) : Decidable (Returns root path) :=
  inferInstanceAs (Decidable (_ <+: _))

/-- A relative path returns to the root, and an engine path starts with it. -/
def FileRequest.LeadsInto (root : List Text) : FileRequest → Prop
  | upload path => Returns root path
  | delete path => Returns root path
  | rename source target => root <+: engineNames (cleanPath source) ∧ root <+: engineNames target
  | restore path => Returns root path
  | restoreFromSnapshot _ path => Returns root path
  | copy paths destination => (∀ path ∈ paths, Returns root path) ∧ Returns root destination
  | symlink path _ => Returns root path

instance (root : List Text) : (request : FileRequest) → Decidable (request.LeadsInto root)
  | .upload path => inferInstanceAs (Decidable (Returns root path))
  | .delete path => inferInstanceAs (Decidable (Returns root path))
  | .rename _ _ => inferInstanceAs (Decidable (_ ∧ _))
  | .restore path => inferInstanceAs (Decidable (Returns root path))
  | .restoreFromSnapshot _ path => inferInstanceAs (Decidable (Returns root path))
  | .copy _ _ => inferInstanceAs (Decidable (_ ∧ _))
  | .symlink path _ => inferInstanceAs (Decidable (Returns root path))

theorem segmentsOf_append (front back : Text) :
    segmentsOf (front ++ '/' :: back) = segmentsOf front ++ segmentsOf back := by
  rw [segmentsOf, List.splitOn_append_cons_self, List.filter_append]
  rfl

/-- A segment is a name that holds no separator. -/
theorem segmentsOf_name {path segment : Text} (inside : segment ∈ segmentsOf path) :
    segment ≠ [] ∧ '/' ∉ segment := by
  obtain ⟨present, some⟩ := List.mem_filter.mp inside
  exact ⟨of_decide_eq_true some, not_mem_of_mem_splitOn present⟩

theorem trimEnd_append (front back : Text) :
    trimEnd (front ++ '/' :: back) = front ++ '/' :: trimEnd back := by
  induction back using List.reverseRecOn with
  | nil =>
      rw [trimEnd, List.rdropWhile_concat_neg _ _ _ (by decide)]
      rfl
  | append_singleton back last ih =>
      have whole : front ++ '/' :: (back ++ [last]) = front ++ '/' :: back ++ [last] := by simp
      rw [whole]
      unfold trimEnd at ih ⊢
      by_cases white : isWhitespace last = true
      · rw [List.rdropWhile_concat_pos _ _ _ white, List.rdropWhile_concat_pos _ _ _ white, ih]
      · rw [List.rdropWhile_concat_neg _ _ _ white, List.rdropWhile_concat_neg _ _ _ white, whole]

/-- Only the end of a path that starts with a separator can be trimmed. -/
theorem trim_slash (rest : Text) : trim ('/' :: rest) = '/' :: trimEnd rest := by
  have start : List.dropWhile isWhitespace ('/' :: rest) = '/' :: rest := List.dropWhile_cons_of_neg (by decide)
  rw [trim, start]
  exact trimEnd_append [] rest

namespace Ascent

theorem step_name {ascent : Ascent} {segment name : Text} (inside : name ∈ (ascent.step segment).names) :
    name = segment ∨ name ∈ ascent.names := by
  unfold step at inside
  split at inside
  · exact Or.inr inside
  · split at inside
    · cases names : ascent.names with
      | nil => simp [names] at inside
      | cons first rest =>
          rw [names] at inside
          exact Or.inr (List.mem_cons_of_mem _ inside)
    · exact List.mem_cons.mp inside

theorem foldl_name {segments : List Text} {ascent : Ascent} {name : Text}
    (inside : name ∈ (segments.foldl step ascent).names) : name ∈ segments ∨ name ∈ ascent.names := by
  induction segments generalizing ascent with
  | nil => exact Or.inr inside
  | cons first rest ih =>
      rcases ih inside with later | early
      · exact Or.inl (List.mem_cons_of_mem _ later)
      · rcases step_name early with rfl | old
        · exact Or.inl (List.mem_cons_self ..)
        · exact Or.inr old

/-- A path only goes down to names that it has among its segments. -/
theorem mem_descends {segments : List Text} {name : Text} (inside : name ∈ (ofSegments segments).descends) :
    name ∈ segments := by
  rcases foldl_name (List.mem_reverse.mp inside) with named | none
  · exact named
  · cases none

/-- The names that an ascent leaves after it has climbed from a directory. -/
def above (names : List Text) (ascent : Ascent) : List Text := ascent.names ++ names.drop ascent.climbed

theorem foldl_names (start : Ascent) (segments : List Text) :
    (segments.foldl step start).names = (ofSegments segments).above start.names := by
  induction segments using List.reverseRecOn with
  | nil => simp [ofSegments, above]
  | append_singleton segments last ih =>
      rw [ofSegments, List.foldl_append, List.foldl_append, ← ofSegments]
      generalize segments.foldl step start = whole at ih ⊢
      generalize ofSegments segments = ascent at ih ⊢
      simp only [List.foldl_cons, List.foldl_nil, step]
      split
      · exact ih
      · split
        · rw [ih, above]
          cases names : ascent.names with
          | nil => cases left : start.names.drop ascent.climbed <;> simp [above, left, ← List.tail_drop]
          | cons first rest => simp [above]
        · simp [above, ih]

/-- A path that is read from a directory takes the ascent of its own segments from there. -/
theorem ofSegments_append (front back : List Text) :
    (ofSegments (front ++ back)).names = (ofSegments back).above (ofSegments front).names := by
  rw [ofSegments, List.foldl_append]
  exact foldl_names _ _

/-- A ascent ends below its start when it goes down again what it has climbed. -/
theorem above_suffix (names : List Text) (ascent : Ascent) :
    names <:+ ascent.above names ↔ names.take ascent.climbed <:+ ascent.names := by
  have whole : names = names.take ascent.climbed ++ names.drop ascent.climbed := (List.take_append_drop ..).symm
  constructor
  · rintro ⟨front, equal⟩
    have same : (front ++ names.take ascent.climbed) ++ names.drop ascent.climbed = ascent.above names := by
      rw [List.append_assoc, ← whole]
      exact equal
    exact ⟨front, List.append_cancel_right same⟩
  · rintro ⟨front, equal⟩
    refine ⟨front, ?_⟩
    rw [above, ← equal, List.append_assoc, ← whole]

end Ascent

/-- Two paths of names lie one below the other when their texts do. -/
theorem isUnderRemoteBase_joinWith {names root : List Text} (free : ∀ name ∈ names, name ≠ [] ∧ '/' ∉ name)
    (named : ∀ name ∈ root, name ≠ [] ∧ '/' ∉ name) :
    isUnderRemoteBase ('/' :: joinWith '/' names) ('/' :: joinWith '/' root) = true ↔ root <+: names := by
  have parts : ∀ {l : List Text}, (∀ name ∈ l, name ≠ [] ∧ '/' ∉ name) → segmentsOf (joinWith '/' l) = l := by
    intro l valid
    by_cases empty : l = []
    · subst empty
      decide
    · rw [segmentsOf, splitOn_joinWith _ _ (fun name inside => (valid name inside).2) empty]
      exact List.filter_eq_self.mpr fun name inside => decide_eq_true (valid name inside).1
  rcases List.eq_nil_or_concat root with rfl | ⟨front, last, rfl⟩
  · have trimmed : trimEndMatches '/' ('/' :: joinWith '/' []) = [] := by decide
    rw [isUnderRemoteBase_iff, trimmed]
    exact iff_of_true ⟨joinWith '/' names ++ ['/'], rfl⟩ (List.nil_prefix)
  · rw [List.concat_eq_append] at named ⊢
    have shape : ∃ before, '/' :: joinWith '/' (front ++ [last]) = before ++ last := by
      by_cases empty : front = []
      · subst empty
        exact ⟨['/'], by simp [joinWith]⟩
      · refine ⟨'/' :: joinWith '/' front ++ ['/'], ?_⟩
        rw [joinWith_append _ empty (List.cons_ne_nil last []), joinWith_singleton]
        simp
    have trimmed : trimEndMatches '/' ('/' :: joinWith '/' (front ++ [last])) =
        '/' :: joinWith '/' (front ++ [last]) := by
      obtain ⟨before, equal⟩ := shape
      obtain ⟨some, free⟩ := named last (by simp)
      obtain ⟨start, final, rfl⟩ := (List.eq_nil_or_concat last).resolve_left some
      have different : final ≠ '/' := by
        rintro rfl
        exact free (by simp)
      rw [equal, List.concat_eq_append, ← List.append_assoc, trimEndMatches]
      exact List.rdropWhile_concat_neg _ _ _ (by simpa using different)
    rw [isUnderRemoteBase_iff, trimmed, List.cons_append, List.cons_append, List.cons_prefix_cons]
    constructor
    · rintro ⟨-, more, equal⟩
      rw [List.append_assoc, List.singleton_append] at equal
      have split := congrArg segmentsOf equal
      have empty : segmentsOf [] = [] := by decide
      rw [segmentsOf_append, segmentsOf_append, parts named, parts free, empty, List.append_nil] at split
      exact ⟨segmentsOf more, split⟩
    · rintro ⟨more, rfl⟩
      refine ⟨rfl, ?_⟩
      by_cases none : more = []
      · subst none
        rw [List.append_nil]
      · rw [joinWith_append _ (by simp) none]
        exact ⟨joinWith '/' more ++ ['/'], by simp⟩

/-- The engine ignores a climb above its own root. -/
theorem normalizedSegments_eq (path : Text) :
    normalizedSegments path = (Ascent.ofSegments (segmentsOf path)).names := by
  have same : ∀ (segments : List Text) (ascent : Ascent),
      segments.foldl (fun names segment =>
        if segment = text "." then names
        else if segment = text ".." then names.tail
        else segment :: names) ascent.names = (segments.foldl Ascent.step ascent).names := by
    intro segments
    induction segments with
    | nil => exact fun _ => rfl
    | cons first rest ih =>
        intro ascent
        rw [List.foldl_cons, List.foldl_cons, ← ih]
        congr 1
        unfold Ascent.step
        split
        · rfl
        · split
          · cases ascent.names <;> rfl
          · rfl
  exact same _ ⟨0, []⟩

theorem normalizeRemotePathLikeEngine_eq (path : Text) :
    normalizeRemotePathLikeEngine path = '/' :: joinWith '/' (engineNames path) := by
  rw [engineNames, Ascent.descends, ← normalizedSegments_eq, normalizeRemotePathLikeEngine]
  split
  next empty =>
    have nothing : trim (withoutNul path) = [] := empty
    rw [nothing]
    decide
  next => rfl

theorem engineNames_name {path name : Text} (inside : name ∈ engineNames path) : name ≠ [] ∧ '/' ∉ name :=
  segmentsOf_name (Ascent.mem_descends inside)

/-- The engine finds one path below another when its names start with those of the other. -/
theorem isUnderRemoteBase_normalized (path root : Text) :
    isUnderRemoteBase (normalizeRemotePathLikeEngine path) (normalizeRemotePathLikeEngine root) = true ↔
      engineNames root <+: engineNames path := by
  rw [normalizeRemotePathLikeEngine_eq, normalizeRemotePathLikeEngine_eq]
  exact isUnderRemoteBase_joinWith (fun _ => engineNames_name) (fun _ => engineNames_name)

/-- Separators at the start of a path lead nowhere. -/
theorem segmentsOf_trimStartMatches (path : Text) :
    segmentsOf (trimEnd (withoutNul (trimStartMatches '/' path))) = segmentsOf (trimEnd (withoutNul path)) := by
  induction path with
  | nil => rfl
  | cons first rest ih =>
      by_cases separator : first = '/'
      · subst separator
        have kept : withoutNul ('/' :: rest) = [] ++ '/' :: withoutNul rest := rfl
        rw [trimStartMatches_cons_self, ih, kept, trimEnd_append, segmentsOf_append]
        rfl
      · rw [trimStartMatches_of_head _ _ _ separator]

/-- The engine trims no start of a path that begins with a separator. -/
theorem engineNames_rooted (rest : Text) : engineNames ('/' :: rest) =
    (Ascent.ofSegments (segmentsOf (trimEnd (withoutNul rest)))).descends := by
  have kept : withoutNul ('/' :: rest) = '/' :: withoutNul rest := rfl
  have split := segmentsOf_append [] (trimEnd (withoutNul rest))
  rw [engineNames, kept, trim_slash]
  rw [List.nil_append] at split
  rw [split]
  rfl

theorem engineNames_cleanPath (rest : Text) : engineNames (cleanPath ('/' :: rest)) = engineNames ('/' :: rest) := by
  rw [cleanPath, engineNames_rooted, engineNames_rooted, trimStartMatches_cons_self, segmentsOf_trimStartMatches]

/-- A relationship is created with its remote path in the stored form. -/
theorem CreateSyncRelationshipRequest.relationship_stored (request : CreateSyncRelationshipRequest) (id : Text)
    (now : Int) : StoredPath (request.relationship id now).toSyncRelationship :=
  ⟨request.remotePath, rfl⟩

/-- An update keeps the remote path in the stored form. -/
theorem StoredPath.updated {relationship : SyncRelationship} (stored : StoredPath relationship)
    (request : UpdateSyncRelationshipRequest) : StoredPath (relationship.updated request) := by
  obtain ⟨given, normal⟩ := stored
  cases changed : request.remotePath with
  | none => exact ⟨given, by rw [SyncRelationship.updated, changed]; exact normal⟩
  | some path => exact ⟨path, by rw [SyncRelationship.updated, changed]; rfl⟩

theorem normalizeRemotePath_rooted (given : Text) : ∃ rest, normalizeRemotePath given = '/' :: rest := by
  have rooted : ∃ rest, (if (replaceBackslashes given).head? = some '/' then replaceBackslashes given
      else '/' :: replaceBackslashes given) = '/' :: rest := by
    split
    next start => exact List.head?_eq_some_iff.mp start
    next => exact ⟨_, rfl⟩
  obtain ⟨rest, equal⟩ := rooted
  rw [normalizeRemotePath, equal]
  split
  · exact ⟨rest, rfl⟩
  · exact ⟨rest ++ ['/'], rfl⟩

section Stored

variable {relationship : SyncRelationship}

/-- The stored path is the base of the paths of the relationship with separators after it. -/
theorem StoredPath.base (stored : StoredPath relationship) : ∃ rest,
    relationship.remotePath = trimEndMatches '/' relationship.remotePath ++ '/' :: rest ∧ ∀ c ∈ rest, c = '/' := by
  obtain ⟨given, normal⟩ := stored
  obtain ⟨front, closed⟩ := normalizeRemotePath_closed given
  rw [← normal] at closed
  generalize relationship.remotePath = path at closed
  have whole : trimEndMatches '/' path ++ path.rtakeWhile (· == '/') = path := List.rdropWhile_append_rtakeWhile
  have slashes : ∀ c ∈ path.rtakeWhile (· == '/'), c = '/' := fun c inside =>
    beq_iff_eq.mp (List.mem_rtakeWhile_imp (p := (· == '/')) inside)
  have last : path.rtakeWhile (· == '/') = front.rtakeWhile (· == '/') ++ ['/'] := by
    rw [closed, List.rtakeWhile_concat_pos _ _ _ (by decide)]
  obtain ⟨first, rest, parts⟩ := List.exists_cons_of_ne_nil
    (show path.rtakeWhile (· == '/') ≠ [] by rw [last]; simp)
  rw [parts] at whole slashes
  rw [slashes first (List.mem_cons_self ..)] at whole
  exact ⟨rest, whole.symm, fun c inside => slashes c (List.mem_cons_of_mem _ inside)⟩

/-- A path below the base starts with a separator. -/
theorem StoredPath.rooted (stored : StoredPath relationship) (back : Text) : ∃ rest,
    trimEndMatches '/' relationship.remotePath ++ '/' :: back = '/' :: rest := by
  obtain ⟨given, normal⟩ := stored
  obtain ⟨rest, start⟩ := normalizeRemotePath_rooted given
  rw [← normal] at start
  have front : trimEndMatches '/' relationship.remotePath <+: '/' :: rest :=
    start ▸ List.rdropWhile_prefix ..
  rcases List.prefix_cons_iff.mp front with empty | ⟨more, equal, -⟩
  · exact ⟨back, by rw [empty]; rfl⟩
  · exact ⟨more ++ '/' :: back, by rw [equal]; rfl⟩

/-- What the engine finds below the base is what the path names from there. -/
theorem StoredPath.engineNames_base (stored : StoredPath relationship) (back : Text) :
    engineNames (trimEndMatches '/' relationship.remotePath ++ '/' :: back) =
      ((Ascent.ofSegments (segmentsOf (trimEnd (withoutNul back)))).above
        (Ascent.ofSegments (segmentsOf (withoutNul (trimEndMatches '/' relationship.remotePath)))).names).reverse := by
  obtain ⟨rest, start⟩ := stored.rooted back
  have kept : withoutNul (trimEndMatches '/' relationship.remotePath ++ '/' :: back) =
      withoutNul (trimEndMatches '/' relationship.remotePath) ++ '/' :: withoutNul back := by
    simp [withoutNul]
  have trimmed : ∀ x rest, x = '/' :: rest → trim x = trimEnd x := by
    rintro x rest rfl
    exact (trim_slash rest).trans (trimEnd_append [] rest).symm
  rw [engineNames, trimmed _ (withoutNul rest) (by rw [start]; rfl), kept, trimEnd_append, segmentsOf_append,
    Ascent.descends, Ascent.ofSegments_append]

theorem segmentsOf_slashes {rest : Text} (slashes : ∀ c ∈ rest, c = '/') :
    segmentsOf (trimEnd (withoutNul rest)) = [] := by
  have trimmed : trimStartMatches '/' rest = [] := by
    rw [trimStartMatches, List.dropWhile_eq_nil_iff]
    exact fun c inside => beq_iff_eq.mpr (slashes c inside)
  rw [← segmentsOf_trimStartMatches, trimmed]
  decide

theorem StoredPath.engineNames_root (stored : StoredPath relationship) : engineNames relationship.remotePath =
    (Ascent.ofSegments (segmentsOf (withoutNul (trimEndMatches '/' relationship.remotePath)))).descends := by
  obtain ⟨rest, whole, slashes⟩ := stored.base
  rw [whole, stored.engineNames_base, segmentsOf_slashes slashes, ← whole]
  simp [Ascent.ofSegments, Ascent.above, Ascent.descends]

theorem computeRemotePath_eq (path : Text) : Routes.computeRemotePath relationship path =
    trimEndMatches '/' relationship.remotePath ++ '/' :: trimStartMatches '/' (replaceBackslashes path) := by
  unfold Routes.computeRemotePath
  extract_lets base relative
  split
  next empty =>
    have nothing : trimStartMatches '/' (replaceBackslashes path) = [] := empty
    rw [nothing]
  next => rfl

/-- A path of the relationship leads into its root when it returns from where it climbs. -/
theorem StoredPath.returns_iff (stored : StoredPath relationship) (path : Text) :
    engineNames relationship.remotePath <+: engineNames (Routes.computeRemotePath relationship path) ↔
      Returns (engineNames relationship.remotePath) path := by
  rw [computeRemotePath_eq, stored.engineNames_base, segmentsOf_trimStartMatches, stored.engineNames_root, Returns,
    Ascent.descends, List.reverse_prefix, Ascent.above_suffix]
  generalize (Ascent.ofSegments (segmentsOf (withoutNul (trimEndMatches '/' relationship.remotePath)))).names = root
  have taken : (root.take (Ascent.ofSegments (segmentsOf (trimEnd (withoutNul (replaceBackslashes path))))).climbed) =
      (root.reverse.drop (root.reverse.length -
        (Ascent.ofSegments (segmentsOf (trimEnd (withoutNul (replaceBackslashes path))))).climbed)).reverse := by
    rw [← List.take_reverse, List.reverse_reverse]
  rw [taken, Ascent.descends, ← List.reverse_prefix, List.reverse_reverse]

theorem StoredPath.cleanPath_computed (stored : StoredPath relationship) (path : Text) :
    engineNames (cleanPath (Routes.computeRemotePath relationship path)) =
      engineNames (Routes.computeRemotePath relationship path) := by
  obtain ⟨rest, start⟩ := stored.rooted (trimStartMatches '/' (replaceBackslashes path))
  rw [computeRemotePath_eq, start, engineNames_cleanPath]

end Stored

end AeordbSync

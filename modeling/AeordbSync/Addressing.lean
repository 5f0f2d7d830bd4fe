import AeordbSync.Library.Url
import AeordbSync.Errors

namespace AeordbSync
open Characters Url

/-- The base of a connection: an origin and the segments under which the engine is mounted. -/
structure BaseUrl where
  scheme : Text
  authority : Text
  mount : List Text
  special : scheme = text "http" ∨ scheme = text "https"
  host : authority ≠ [] ∧ ∀ c ∈ authority, endsAuthority c = false ∧ isC0OrSpace c = false
  mounted : ∀ segment ∈ mount, Plain segment ∧ ∀ c ∈ segment, isC0OrSpace c = false

def BaseUrl.text (base : BaseUrl) : Text :=
  base.scheme ++ AeordbSync.text "://" ++ base.authority ++ base.mount.flatMap ('/' :: ·)

/-- A name that a directory of the local file system can have. -/
def IsFileName (name : Text) : Prop :=
  name ≠ [] ∧ '/' ∉ name ∧ Char.ofNat 0 ∉ name ∧ name ≠ text "." ∧ name ≠ text ".."

instance : DecidablePred IsFileName := fun _ => inferInstanceAs (Decidable (_ ∧ _))

structure RemotePath where
  names : List Text
  valid : ∀ name ∈ names, IsFileName name

def RemotePath.text (path : RemotePath) : Text := '/' :: joinWith '/' path.names

/-- The calls of the remote client that put a path into the URL. -/
inductive PathRequest where
  | downloadFile
  | exists
  | uploadFile
  | deleteFile
  | createSymlink
  | remoteSymlinkTarget
  | renameFile
  | listDirectoryPaginated (limit offset : Option Nat)

namespace PathRequest

def listParams (limit offset : Option Nat) : List Text :=
  (limit.map fun limit => text "limit=" ++ decimal limit).toList ++
    (offset.map fun offset => text "offset=" ++ decimal offset).toList

def url (base : BaseUrl) (path : Text) : PathRequest → Text
  | .downloadFile => base.text ++ text "/files" ++ path
  | .exists => base.text ++ text "/files" ++ path
  | .uploadFile => base.text ++ text "/files" ++ path
  | .deleteFile => base.text ++ text "/files" ++ path
  | .createSymlink => base.text ++ text "/links" ++ path
  | .remoteSymlinkTarget => base.text ++ text "/files" ++ path ++ text "?nofollow=true"
  | .renameFile => base.text ++ text "/files/" ++ trimStartMatches '/' path
  | .listDirectoryPaginated limit offset =>
      let url := base.text ++ text "/files" ++ path
      let params := listParams limit offset
      if params = [] then url else url ++ text "?" ++ joinWith '&' params

def route : PathRequest → Text
  | .createSymlink => text "links"
  | _ => text "files"

/-- The path that the engine reads from the URL: what follows its route, decoded once. -/
def resource (base : BaseUrl) (path : Text) (request : PathRequest) : Option Bytes :=
  match Url.path (request.url base path) with
  | none => none
  | some segments =>
      let mounted := base.mount.map encode ++ [request.route]
      if mounted <+: segments then some (decodedPath (segments.drop mounted.length)) else none

/-- What stands behind the path in the URL. -/
def query : PathRequest → Text
  | .remoteSymlinkTarget => text "?nofollow=true"
  | .listDirectoryPaginated limit offset =>
      let params := listParams limit offset
      if params = [] then [] else text "?" ++ joinWith '&' params
  | _ => []

end PathRequest

/-- The path has no character that a URL gives a meaning: none that ends the path, separates, or is
removed, no escape, and no blank or control character at the end of the URL. -/
def Addressable (request : PathRequest) (path : Text) : Prop :=
  (∀ c ∈ path, endsPath c = false ∧ c ≠ '\\' ∧ isTabOrNewline c = false) ∧ ¬ Escaped path ∧
    (request.query = [] → ∀ c ∈ path.getLast?, isC0OrSpace c = false)

theorem PathRequest.route_solid (request : PathRequest) : Plain request.route ∧ (∀ c ∈ request.route, isC0OrSpace c = false) ∧
    encode request.route = request.route := by
  have solid : ∀ route ∈ [text "files", text "links"],
      (route.all fun c => !isSeparator c && !endsPath c && !isC0OrSpace c) = true ∧
        isSingleDot route = false ∧ isDoubleDot route = false ∧ encode route = route := by decide
  obtain ⟨chars, single, double, same⟩ := solid request.route (by cases request <;> simp [PathRequest.route])
  have each : ∀ c ∈ request.route, (isSeparator c = false ∧ endsPath c = false) ∧ isC0OrSpace c = false := by
    simpa using List.all_eq_true.mp chars
  refine ⟨⟨fun c inside => (each c inside).1, ?_, ?_⟩, fun c inside => (each c inside).2, same⟩
  · rw [same]
    exact single
  · rw [same]
    exact double

namespace BaseUrl

/-- The segments that every path of the route has before its own. -/
def segments (base : BaseUrl) (request : PathRequest) : List Text := base.mount ++ [request.route]

def front (base : BaseUrl) (request : PathRequest) : Text := (base.segments request).flatMap (· ++ ['/'])

theorem segments_solid (base : BaseUrl) (request : PathRequest) : ∀ segment ∈ base.segments request,
    Plain segment ∧ ∀ c ∈ segment, isC0OrSpace c = false := by
  intro segment inside
  rcases List.mem_append.mp inside with inMount | isRoute
  · exact base.mounted segment inMount
  · obtain rfl := List.mem_singleton.mp isRoute
    exact ⟨request.route_solid.1, request.route_solid.2.1⟩

theorem front_solid (base : BaseUrl) (request : PathRequest) :
    ∀ c ∈ base.front request, isC0OrSpace c = false := by
  intro c inside
  obtain ⟨segment, present, either⟩ := List.mem_flatMap.mp inside
  rcases List.mem_append.mp either with inSegment | slash
  · exact (base.segments_solid request segment present).2 c inSegment
  · obtain rfl := List.mem_singleton.mp slash
    rfl

end BaseUrl

theorem mount_text (mount : List Text) (rest : Text) :
    mount.flatMap ('/' :: ·) ++ '/' :: rest = '/' :: (mount.flatMap (· ++ ['/']) ++ rest) := by
  induction mount with
  | nil => rfl
  | cons segment later ih => simp [ih]

theorem RemotePath.trimmed (path : RemotePath) :
    '/' :: trimStartMatches '/' path.text = path.text := by
  unfold RemotePath.text
  cases named : path.names with
  | nil => rfl
  | cons name others =>
      have valid := path.valid name (by simp [named])
      obtain ⟨c, tail, rfl⟩ := List.exists_cons_of_ne_nil valid.1
      have different : c ≠ '/' := fun same => valid.2.1 (by simp [same])
      rw [trimStartMatches_joinWith '/' c tail others different]

namespace PathRequest

theorem url_parts (base : BaseUrl) (path : RemotePath) (request : PathRequest) :
    request.url base path.text = base.text ++ '/' :: request.route ++ path.text ++ request.query := by
  have trimmed := path.trimmed
  cases request with
  | renameFile =>
      show base.text ++ text "/files/" ++ trimStartMatches '/' path.text = _
      rw [← trimmed]
      simp [query, route, text, trimmed]
  | listDirectoryPaginated limit offset =>
      show (if _ then _ else _) = _
      split
      next empty => simp [query, route, text, empty]
      next filled => simp [query, route, text, filled]
  | _ => simp [url, query, route, text]

/-- Every call builds its URL from the origin, the front of its route, the names and its query. -/
theorem url_eq (base : BaseUrl) (path : RemotePath) (request : PathRequest) :
    request.url base path.text = base.scheme ++ [':', '/', '/'] ++ base.authority ++
      '/' :: (base.front request ++ (joinWith '/' path.names ++ request.query)) := by
  have mount := mount_text base.mount (request.route ++ path.text ++ request.query)
  rw [url_parts]
  simp only [BaseUrl.text, BaseUrl.front, BaseUrl.segments, RemotePath.text, List.append_assoc, List.cons_append,
    List.flatMap_append, List.flatMap_singleton, List.nil_append] at mount ⊢
  rw [mount]
  rfl

/-- The part of the names that the parser leaves to the path. -/
def left (request : PathRequest) (names : Text) : Text :=
  untilQuery ((if request.query = [] then names.rdropWhile isC0OrSpace else names).filter
    fun c => !isTabOrNewline c)

theorem query_head (request : PathRequest) (some : request.query ≠ []) :
    ∃ rest, request.query = '?' :: rest := by
  cases request with
  | remoteSymlinkTarget => exact ⟨_, rfl⟩
  | listDirectoryPaginated limit offset =>
      by_cases empty : listParams limit offset = []
      · exact absurd (by simp [query, empty]) some
      · exact ⟨joinWith '&' (listParams limit offset), by simp [query, empty, text]⟩
  | _ => exact absurd rfl some

theorem untilQuery_stop (t rest : Text) : untilQuery (t ++ '?' :: rest) = untilQuery t := by
  unfold untilQuery
  induction t with
  | nil => rfl
  | cons c later ih =>
      rw [List.cons_append, List.takeWhile_cons, List.takeWhile_cons, ih]

theorem left_eq (request : PathRequest) (names : Text) :
    untilQuery (((names ++ request.query).rdropWhile isC0OrSpace).filter fun c => !isTabOrNewline c) =
      request.left names := by
  unfold left
  by_cases empty : request.query = []
  · rw [if_pos empty, empty, List.append_nil]
  · rw [if_neg empty]
    obtain ⟨rest, equal⟩ := request.query_head empty
    have kept : (names ++ '?' :: rest).rdropWhile isC0OrSpace = names ++ '?' :: rest.rdropWhile isC0OrSpace := by
      have front : ((names ++ ['?']) ++ rest).rdropWhile isC0OrSpace = (names ++ ['?']) ++ rest.rdropWhile isC0OrSpace :=
        rdropWhile_append isC0OrSpace rest (by simp; decide)
      simpa using front
    rw [equal, kept, List.filter_append, List.filter_cons_of_pos (by decide), untilQuery_stop]

/-- The segments that the engine reads: those of the route, and what the names left to the path make. -/
theorem path_url (base : BaseUrl) (path : RemotePath) (request : PathRequest) :
    Url.path (request.url base path.text) =
      some (pathState ((base.segments request).map encode) [] (request.left (joinWith '/' path.names))) := by
  rw [url_eq, path_origin base.special base.host.1 base.host.2 (base.front_solid request), BaseUrl.front,
    pathState_plain fun segment inside => (base.segments_solid request segment inside).1, List.nil_append,
    ← pathState_untilQuery, left_eq]

theorem left_sublist (request : PathRequest) (names : Text) : (request.left names).Sublist names := by
  refine (List.takeWhile_sublist _).trans (List.filter_sublist.trans ?_)
  split
  · exact (List.rdropWhile_prefix _ names).sublist
  · exact List.Sublist.refl _

theorem left_eq_self {request : PathRequest} {names : Text} : request.left names = names ↔
    (∀ c ∈ names, endsPath c = false ∧ isTabOrNewline c = false) ∧
      (request.query = [] → ∀ c ∈ names.getLast?, isC0OrSpace c = false) := by
  generalize trimmed : (if request.query = [] then names.rdropWhile isC0OrSpace else names) = t
  have shorter : t.Sublist names := by
    rw [← trimmed]
    split
    · exact (List.rdropWhile_prefix _ names).sublist
    · exact List.Sublist.refl _
  have whole : t = names ↔ (request.query = [] → ∀ c ∈ names.getLast?, isC0OrSpace c = false) := by
    rw [← trimmed]
    split
    next empty =>
      rw [rdropWhile_eq_self]
      exact ⟨fun last _ => last, fun last => last empty⟩
    next filled => simp [filled]
  unfold left untilQuery
  rw [trimmed, takeWhile_eq_self shorter, whole]
  simp

theorem addressable_iff (request : PathRequest) (path : RemotePath) : Addressable request path.text ↔
    request.left (joinWith '/' path.names) = joinWith '/' path.names ∧
      slashed (joinWith '/' path.names) = joinWith '/' path.names ∧ ¬ Escaped (joinWith '/' path.names) := by
  generalize names : joinWith '/' path.names = t
  have slash : endsPath '/' = false ∧ '/' ≠ '\\' ∧ isTabOrNewline '/' = false ∧ isC0OrSpace '/' = false := by decide
  have last : (∀ c ∈ ('/' :: t).getLast?, isC0OrSpace c = false) ↔ ∀ c ∈ t.getLast?, isC0OrSpace c = false := by
    cases t with
    | nil => simp [slash.2.2.2]
    | cons c later => rw [List.getLast?_cons_cons]
  rw [left_eq_self, slashed_eq_self, RemotePath.text, names]
  unfold Addressable
  rw [last, escaped_cons]
  simp only [List.mem_cons, forall_eq_or_imp]
  constructor
  · rintro ⟨⟨-, free⟩, raw, whole⟩
    exact ⟨⟨fun c inside => ⟨(free c inside).1, (free c inside).2.2⟩, whole⟩,
      fun inside => (free _ inside).2.1 rfl, fun escaped => raw (Or.inr escaped)⟩
  · rintro ⟨⟨free, whole⟩, separators, raw⟩
    refine ⟨⟨⟨slash.1, slash.2.1, slash.2.2.1⟩, fun c inside => ⟨(free c inside).1, ?_, (free c inside).2⟩⟩, ?_, whole⟩
    · rintro rfl
      exact separators inside
    · rintro (⟨same, -⟩ | escaped)
      · exact absurd same (by decide)
      · exact raw escaped

theorem mounted_eq (base : BaseUrl) (request : PathRequest) :
    base.mount.map encode ++ [request.route] = (base.segments request).map encode := by
  rw [BaseUrl.segments, List.map_append, List.map_singleton, request.route_solid.2.2]

/-- The names of an addressable path are the segments that the parser adds to those of the route. -/
theorem pathState_names {request : PathRequest} {path : RemotePath} (addressable : Addressable request path.text)
    (front : List Text) : ∃ added, pathState front [] (joinWith '/' path.names) = front ++ added ∧
      decodedPath added = utf8 path.text := by
  obtain ⟨whole, separators, raw⟩ := (addressable_iff request path).mp addressable
  have free := (left_eq_self.mp whole).1
  rw [slashed_eq_self] at separators
  cases named : path.names with
  | nil =>
      refine ⟨[[]], rfl, ?_⟩
      rw [RemotePath.text, named]
      decide
  | cons name others =>
      rw [← named]
      have filled : path.names ≠ [] := by simp [named]
      refine ⟨path.names.map encode, pathState_joinWith (fun segment inside => ?_) filled front, ?_⟩
      · have part := infix_joinWith inside
        have valid := path.valid segment inside
        refine plain_of_name (fun c present => ⟨?_, (free c (part.subset present)).1⟩)
          (fun escaped => raw (escaped.mono part)) valid.2.2.2.1 valid.2.2.2.2
        have slash : c ≠ '/' := fun same => valid.2.1 (same ▸ present)
        have backslash : c ≠ '\\' := fun same => separators (part.subset (same ▸ present))
        simp [isSeparator, slash, backslash]
      · exact decodedPath_raw filled fun segment inside escaped => raw (escaped.mono (infix_joinWith inside))

/-- If the engine reads the named path, then the parser has lost and decoded nothing of the names. -/
theorem names_kept {request : PathRequest} {names : Text} {front added : List Text}
    (parsed : pathState front [] (request.left names) = front ++ added)
    (reached : decodedPath added = 47 :: utf8 names) :
    request.left names = names ∧ slashed names = names ∧ ¬ Escaped names := by
  have bytes := (request.left_sublist names).flatMap String.utf8EncodeChar
  have shorter : (utf8 (request.left names)).length ≤ (utf8 names).length := bytes.length_le
  have idem : untilQuery (request.left names) = request.left names := List.takeWhile_idem ..
  rcases decodedPath_pathState front [] (request.left names) with same | less
  · rw [show encode [] = [] from rfl, parsed, idem, decodedPath_append, List.append_cancel_left_eq, reached,
      List.cons.injEq, List.nil_append] at same
    have decoded := same.2
    have bound := percentDecode_length (slashed (request.left names))
    rw [← decoded, length_slashed] at bound
    have kept : request.left names = names := utf8_injective (bytes.eq_of_length (shorter.antisymm bound))
    rw [kept] at decoded
    rcases percentDecode_spec (slashed names) with ⟨raw, equal⟩ | ⟨-, strict⟩
    · have separators : slashed names = names := utf8_injective (equal.symm.trans decoded.symm)
      exact ⟨kept, separators, separators ▸ raw⟩
    · rw [← decoded, length_slashed] at strict
      exact absurd strict (lt_irrefl _)
  · rw [show encode [] = [] from rfl, parsed, idem, decodedPath_append, List.length_append, reached,
      List.length_cons, List.nil_append] at less
    omega

/-- The engine reads the path that the caller named exactly when the URL gives none of its characters a
meaning. -/
theorem request_reaches (base : BaseUrl) (request : PathRequest) (path : RemotePath) :
    request.resource base path.text = some (utf8 path.text) ↔ Addressable request path.text := by
  unfold resource
  rw [path_url base path request, mounted_eq]
  generalize (base.segments request).map encode = front
  simp only []
  constructor
  · intro reached
    split at reached
    next isPrefix =>
      obtain ⟨added, equal⟩ := isPrefix
      rw [← equal, List.drop_left, Option.some.injEq, RemotePath.text, utf8_slash] at reached
      exact (addressable_iff request path).mpr (names_kept equal.symm reached)
    next => cases reached
  · intro addressable
    obtain ⟨added, parsed, decoded⟩ := pathState_names addressable front
    rw [((addressable_iff request path).mp addressable).1, parsed, if_pos (List.prefix_append ..), List.drop_left,
      decoded]

theorem localHost : text "127.0.0.1:6830" ≠ [] ∧
    ∀ c ∈ text "127.0.0.1:6830", endsAuthority c = false ∧ isC0OrSpace c = false := by
  have clean : ((text "127.0.0.1:6830").all fun c => !endsAuthority c && !isC0OrSpace c) = true := by decide
  refine ⟨by decide, ?_⟩
  simpa only [Bool.and_eq_true, Bool.not_eq_true'] using List.all_eq_true.mp clean

/-- A name with a hash sign sends a delete to another file. -/
theorem deleteFile_misses : ∃ (base : BaseUrl) (named other : RemotePath), named.text ≠ other.text ∧
    deleteFile.resource base named.text = some (utf8 other.text) ∧
    deleteFile.resource base other.text = some (utf8 other.text) := by
  refine ⟨⟨text "http", text "127.0.0.1:6830", [], Or.inl rfl, localHost, fun _ inside => (nomatch inside)⟩,
    ⟨[text "docs", text "a#b"], by decide⟩, ⟨[text "docs", text "a"], by decide⟩, ?_, ?_, ?_⟩
  · decide
  · decide
  · decide

end PathRequest

end AeordbSync

import AeordbSync.Library.Form
import AeordbSync.Addressing
import AeordbSync.Events.Listener

namespace AeordbSync
open Characters Url

/-- These bytes stand for themselves in a query value. -/
def isUnreserved (byte : UInt8) : Bool :=
  let n := byte.toNat
  (65 ≤ n && n ≤ 90) || (97 ≤ n && n ≤ 122) || (48 ≤ n && n ≤ 57) || [45, 95, 46, 126, 47].contains n

def urlEncodeByte (byte : UInt8) : Text :=
  if isUnreserved byte then [Char.ofNat byte.toNat] else percentEncodeByte byte

def simpleUrlEncode (input : Text) : Text := (utf8 input).flatMap urlEncodeByte

/-- No character of the text ends a query value or splits it, and every percent sign begins an escape. -/
structure QuerySafe (t : Text) : Prop where
  plain : ∀ c ∈ t, c.toNat < 128 ∧ c ∉ ['&', '=', '#', '?', '+', ' ']
  escapes : ∀ front rest, t = front ++ '%' :: rest → StartsHex rest

theorem unreserved_char {byte : UInt8} (unreserved : isUnreserved byte = true) :
    String.utf8EncodeChar (Char.ofNat byte.toNat) = [byte] ∧
      ∀ c ∈ [Char.ofNat byte.toNat], inQuerySet c = false ∧ c ∉ ['&', '=', '#', '?', '+', '%'] := by
  have all : ((List.range 256).all fun n => !isUnreserved (UInt8.ofNat n) ||
      (String.utf8EncodeChar (Char.ofNat n) == [UInt8.ofNat n] && !inQuerySet (Char.ofNat n) &&
        decide (Char.ofNat n ∉ ['&', '=', '#', '?', '+', '%']))) = true := by decide +kernel
  have here := List.all_eq_true.mp all byte.toNat (List.mem_range.mpr byte.toNat_lt)
  rw [UInt8.ofNat_toNat, unreserved] at here
  simpa [and_assoc] using here

theorem hexDigit_char : ∀ n < 16, inQuerySet (hexDigit n) = false ∧ hexDigit n ∉ ['&', '=', '#', '?', '+', '%'] := by
  decide

theorem urlEncodeByte_chars (byte : UInt8) :
    ∀ c ∈ urlEncodeByte byte, inQuerySet c = false ∧ c ∉ ['&', '=', '#', '?', '+'] := by
  intro c inside
  unfold urlEncodeByte at inside
  split at inside
  next unreserved =>
    have plain := (unreserved_char unreserved).2 c inside
    exact ⟨plain.1, fun listed => plain.2 (List.mem_append_left ['%'] listed)⟩
  next =>
    have small : byte.toNat < 256 := byte.toNat_lt
    simp only [percentEncodeByte, List.mem_cons, List.not_mem_nil, or_false] at inside
    rcases inside with rfl | rfl | rfl
    · decide
    · have digit := hexDigit_char (byte.toNat / 16) (by omega)
      exact ⟨digit.1, fun listed => digit.2 (List.mem_append_left ['%'] listed)⟩
    · have digit := hexDigit_char (byte.toNat % 16) (by omega)
      exact ⟨digit.1, fun listed => digit.2 (List.mem_append_left ['%'] listed)⟩

theorem simpleUrlEncode_chars (input : Text) :
    ∀ c ∈ simpleUrlEncode input, inQuerySet c = false ∧ c ∉ ['&', '=', '#', '?', '+'] := by
  intro c inside
  obtain ⟨byte, -, written⟩ := List.mem_flatMap.mp inside
  exact urlEncodeByte_chars byte c written

theorem percentDecode_urlEncodeByte (byte : UInt8) (rest : Text) :
    percentDecode (urlEncodeByte byte ++ rest) = byte :: percentDecode rest := by
  unfold urlEncodeByte
  split
  next unreserved =>
    obtain ⟨single, plain⟩ := unreserved_char unreserved
    have different : Char.ofNat byte.toNat ≠ '%' := by
      intro percent
      exact (plain _ (List.mem_singleton.mpr rfl)).2 (percent ▸ by simp)
    rw [List.singleton_append, percentDecode_cons different, single, List.singleton_append]
  next => exact percentDecode_encodeByte byte rest

/-- Decoding undoes the encoding, whatever the bytes. -/
theorem percentDecode_urlEncodeBytes (bytes : Bytes) : percentDecode (bytes.flatMap urlEncodeByte) = bytes := by
  induction bytes with
  | nil => simp [percentDecode]
  | cons byte rest ih => rw [List.flatMap_cons, percentDecode_urlEncodeByte, ih]

theorem percentDecode_simpleUrlEncode (input : Text) : percentDecode (simpleUrlEncode input) = utf8 input :=
  percentDecode_urlEncodeBytes (utf8 input)

theorem startsHex_urlEncodeBytes (bytes : Bytes) {front rest : Text}
    (written : bytes.flatMap urlEncodeByte = front ++ '%' :: rest) : StartsHex rest := by
  induction bytes generalizing front with
  | nil => simp at written
  | cons byte others ih =>
      have small : byte.toNat < 256 := byte.toNat_lt
      have high := hexDigit_char (byte.toNat / 16) (by omega)
      have low := hexDigit_char (byte.toNat % 16) (by omega)
      rw [List.flatMap_cons, urlEncodeByte] at written
      split at written
      next unreserved =>
        have plain := ((unreserved_char unreserved).2 _ (List.mem_singleton.mpr rfl)).2
        match front with
        | [] =>
            obtain ⟨first, -⟩ := List.cons.inj written
            exact absurd (by simp [first]) plain
        | _ :: front => exact ih (List.cons.inj written).2
      next =>
        -- an escape holds one percent sign, its first character
        match front with
        | [] =>
            obtain ⟨-, tail⟩ := List.cons.inj written
            exact ⟨_, _, _, _, _, tail.symm, hexValue_hexDigit _ (by omega), hexValue_hexDigit _ (by omega)⟩
        | [_] =>
            obtain ⟨second, -⟩ := List.cons.inj (List.cons.inj written).2
            exact absurd (by simp [second]) high.2
        | [_, _] =>
            obtain ⟨third, -⟩ := List.cons.inj (List.cons.inj (List.cons.inj written).2).2
            exact absurd (by simp [third]) low.2
        | _ :: _ :: _ :: front => exact ih (List.cons.inj (List.cons.inj (List.cons.inj written).2).2).2

theorem simpleUrlEncode_safe (input : Text) : QuerySafe (simpleUrlEncode input) where
  plain := by
    intro c inside
    obtain ⟨spared, free⟩ := simpleUrlEncode_chars input c inside
    simp only [inQuerySet, Bool.or_eq_false_iff, decide_eq_false_iff_not] at spared
    refine ⟨by omega, ?_⟩
    intro listed
    rcases List.mem_append.mp (show c ∈ ['&', '=', '#', '?', '+'] ++ [' '] from listed) with split | blank
    · exact free split
    · obtain rfl := List.mem_singleton.mp blank
      exact spared.1.1 (by decide)
  escapes := fun _ _ written => startsHex_urlEncodeBytes _ written

/-- An encoded value is read back from the end of a query. -/
theorem formPairs_simpleUrlEncode {name : Text} (named : Solid name) (path : Text) :
    formPairs (name ++ '=' :: escape inQuerySet (queryLeft (simpleUrlEncode path))) = [(utf8 name, utf8 path)] := by
  have chars := simpleUrlEncode_chars path
  have left : queryLeft (simpleUrlEncode path) = simpleUrlEncode path := by
    refine queryLeft_eq_self.mpr ⟨fun c inside => ⟨(blank_listed (chars c inside).1).2, ?_⟩, fun c last => ?_⟩
    · cases tab : isTabOrNewline c with
      | false => rfl
      | true =>
          have solid := (blank_listed (chars c inside).1).1
          rw [blank_of_tab tab] at solid
          cases solid
    · exact (blank_listed (chars c (List.mem_of_getLast? last)).1).1
  have whole : '&' ∉ simpleUrlEncode path := fun inside => (chars _ inside).2 (by simp)
  have spaced : (simpleUrlEncode path).map plusToSpace = simpleUrlEncode path := by
    refine (List.map_congr_left fun c inside => plusToSpace_of_ne ?_).trans (List.map_id _)
    rintro rfl
    exact (chars _ inside).2 (by simp)
  rw [left, formPairs_value named whole, formDecode, spaced, percentDecode_simpleUrlEncode]

/-- A token of the engine: segments of base64url with periods between them. -/
structure Jwt where
  text : Text
  letters : ∀ c ∈ text, c.isAlphanum = true ∨ c ∈ ['-', '_', '.']

/-- The calls that put a path into the query of a URL. -/
inductive QueryRequest where
  | portalUrl (token : Jwt)
  | fileEventStream
  | getShares
  | getShareLinks
  | fetchDeleted
  | connectAndListen

theorem Jwt.solid (token : Jwt) : Solid token.text := by
  intro c inside
  rcases token.letters c inside with letter | sign
  · have range : (48 ≤ c.toNat ∧ c.toNat ≤ 57) ∨ (65 ≤ c.toNat ∧ c.toNat ≤ 90) ∨ (97 ≤ c.toNat ∧ c.toNat ≤ 122) := by
      simp only [Char.isAlphanum, Char.isAlpha, Char.isUpper, Char.isLower, Char.isDigit, Bool.or_eq_true,
        Bool.and_eq_true, decide_eq_true_eq, UInt32.le_iff_toNat_le, ge_iff_le] at letter
      change ((65 ≤ c.toNat ∧ c.toNat ≤ 90) ∨ (97 ≤ c.toNat ∧ c.toNat ≤ 122)) ∨ 48 ≤ c.toNat ∧ c.toNat ≤ 57 at letter
      tauto
    refine ⟨?_, ?_, ?_, ?_, ?_⟩
    · simp only [inQuerySet, List.contains_cons, List.contains_nil, Bool.or_eq_false_iff, decide_eq_false_iff_not,
        beq_eq_false_iff_ne, ne_eq, Bool.or_false]
      omega
    all_goals
      rintro rfl
      revert range
      decide
  · have signs : ∀ c ∈ ['-', '_', '.'], inQuerySet c = false ∧ c ≠ '&' ∧ c ≠ '=' ∧ c ≠ '+' ∧ c ≠ '%' :=
      forall_of_all (by decide)
    exact signs c sign

namespace QueryRequest

def url (base : BaseUrl) (path : Text) : QueryRequest → Text
  | .portalUrl token => trimEndMatches '/' base.text ++ text "/?token=" ++ token.text ++ text "&page=files&path=" ++
      simpleUrlEncode path
  | .fileEventStream => base.text ++ text "/system/events?events=entries_created,entries_deleted&path_prefix=" ++
      simpleUrlEncode path
  | .getShares => base.text ++ text "/files/shares?path=" ++ simpleUrlEncode path
  | .getShareLinks => base.text ++ text "/files/share-links?path=" ++ simpleUrlEncode path
  | .fetchDeleted => base.text ++ text "/files/deleted?path=" ++ simpleUrlEncode path
  -- the listener with one prefix puts it into the URL as it is
  | .connectAndListen => base.text ++ text "/system/events?events=entries_created,entries_deleted" ++
      text "&path_prefix=" ++ path

/-- The parameters before the path. -/
def fields : QueryRequest → List (Text × Text)
  | .portalUrl token => [(text "token", token.text), (text "page", text "files")]
  | .fileEventStream | .connectAndListen => [(text "events", text "entries_created,entries_deleted")]
  | _ => []

def name : QueryRequest → Text
  | .fileEventStream | .connectAndListen => text "path_prefix"
  | _ => text "path"

/-- The parameters that the server is meant to read. -/
def parameters (path : Text) (request : QueryRequest) : List (Bytes × Bytes) :=
  (request.fields ++ [(request.name, path)]).map fun field => (utf8 field.1, utf8 field.2)

def front (base : BaseUrl) : QueryRequest → Text
  | .portalUrl _ => trimEndMatches '/' base.text ++ text "/"
  | .fileEventStream | .connectAndListen => base.text ++ text "/system/events"
  | .getShares => base.text ++ text "/files/shares"
  | .getShareLinks => base.text ++ text "/files/share-links"
  | .fetchDeleted => base.text ++ text "/files/deleted"

def value (path : Text) : QueryRequest → Text
  | .connectAndListen => path
  | _ => simpleUrlEncode path

theorem url_eq (base : BaseUrl) (path : Text) (request : QueryRequest) : request.url base path =
    request.front base ++ '?' :: (leading request.fields ++ (request.name ++ '=' :: request.value path)) := by
  cases request <;> simp [url, front, fields, name, value, leading, text]

theorem fields_solid (request : QueryRequest) : ∀ field ∈ request.fields, Solid field.1 ∧ Solid field.2 := by
  cases request with
  | portalUrl token =>
      intro field listed
      rcases List.mem_cons.mp listed with rfl | page
      · exact ⟨solid_of_all (t := text "token") (by decide), token.solid⟩
      · obtain rfl := List.mem_singleton.mp page
        exact ⟨solid_of_all (by decide), solid_of_all (by decide)⟩
  | fileEventStream | connectAndListen =>
      intro field listed
      obtain rfl := List.mem_singleton.mp listed
      exact ⟨solid_of_all (by decide), solid_of_all (by decide)⟩
  | getShares | getShareLinks | fetchDeleted =>
      intro field listed
      cases listed

theorem name_solid (request : QueryRequest) : Solid request.name := by
  cases request with
  | fileEventStream | connectAndListen => exact solid_of_all (t := text "path_prefix") (by decide)
  | portalUrl | getShares | getShareLinks | fetchDeleted => exact solid_of_all (t := text "path") (by decide)

end QueryRequest

/-- The parser removes nothing of a base, and nothing of it ends the path. -/
theorem BaseUrl.opens (base : BaseUrl) : ∀ c ∈ base.text, isC0OrSpace c = false ∧ c ≠ '?' ∧ c ≠ '#' := by
  have ends : ∀ c, endsPath c = false → c ≠ '?' ∧ c ≠ '#' := fun c within => by simpa [endsPath] using within
  have fixed : ∀ c ∈ AeordbSync.text "http" ++ AeordbSync.text "https" ++ AeordbSync.text "://",
      isC0OrSpace c = false ∧ c ≠ '?' ∧ c ≠ '#' := forall_of_all (by decide)
  intro c inside
  rcases List.mem_append.mp inside with early | inMount
  · rcases List.mem_append.mp early with before | inHost
    · rcases List.mem_append.mp before with inScheme | marks
      · rcases base.special with http | https
        · exact fixed c (List.mem_append_left _ (List.mem_append_left _ (http ▸ inScheme)))
        · exact fixed c (List.mem_append_left _ (List.mem_append_right _ (https ▸ inScheme)))
      · exact fixed c (List.mem_append_right _ marks)
    · obtain ⟨inside, solid⟩ := base.host.2 c inHost
      rw [endsAuthority, Bool.or_eq_false_iff] at inside
      exact ⟨solid, ends c inside.2⟩
  · obtain ⟨segment, listed, written⟩ := List.mem_flatMap.mp inMount
    obtain ⟨plain, solid⟩ := base.mounted segment listed
    rcases List.mem_cons.mp written with rfl | inSegment
    · decide
    · exact ⟨solid c inSegment, ends c (plain.1 c inSegment).2⟩

namespace QueryRequest

theorem front_opens (base : BaseUrl) (request : QueryRequest) :
    ∀ c ∈ request.front base, isC0OrSpace c = false ∧ c ≠ '?' ∧ c ≠ '#' := by
  have routed : ∀ {start : Text} (route : Text), (∀ c ∈ start, c ∈ base.text) →
      (∀ c ∈ route, isC0OrSpace c = false ∧ c ≠ '?' ∧ c ≠ '#') →
      ∀ c ∈ start ++ route, isC0OrSpace c = false ∧ c ≠ '?' ∧ c ≠ '#' := by
    intro start route based plain c inside
    rcases List.mem_append.mp inside with early | late
    · exact base.opens c (based c early)
    · exact plain c late
  cases request with
  | portalUrl =>
      exact routed (text "/") (fun c inside => (List.rdropWhile_prefix _ base.text).subset inside)
        (forall_of_all (by decide))
  | fileEventStream | connectAndListen =>
      exact routed (text "/system/events") (fun _ inside => inside) (forall_of_all (by decide))
  | getShares => exact routed (text "/files/shares") (fun _ inside => inside) (forall_of_all (by decide))
  | getShareLinks => exact routed (text "/files/share-links") (fun _ inside => inside) (forall_of_all (by decide))
  | fetchDeleted => exact routed (text "/files/deleted") (fun _ inside => inside) (forall_of_all (by decide))

/-- The server reads the path that was meant, unless the listener puts one into its URL that is read differently. -/
theorem reads_iff (base : BaseUrl) (path : Text) (request : QueryRequest) :
    (Url.query (request.url base path)).map formPairs = some (request.parameters path) ↔
      (request = connectAndListen → QueryClear path) := by
  have parts : request.parameters path =
      request.fields.map (fun field => (utf8 field.1, utf8 field.2)) ++ [(utf8 request.name, utf8 path)] := by
    rw [parameters, List.map_append, List.map_singleton]
  have opens := front_opens base request
  rw [parts, url_eq]
  by_cases listener : request = connectAndListen
  · subst listener
    have iff := query_reads_iff path opens (fields_solid connectAndListen) (name_solid connectAndListen)
    exact iff.trans (by simp)
  · have encoded : request.value path = simpleUrlEncode path := by
      cases request with
      | connectAndListen => exact absurd rfl listener
      | _ => rfl
    rw [encoded, query_reads _ opens (fields_solid request) (name_solid request),
      formPairs_simpleUrlEncode (name_solid request)]
    simp [listener]

end QueryRequest

theorem simpleUrlEncode_injective : Function.Injective simpleUrlEncode := by
  intro first second equal
  apply utf8_injective
  rw [← percentDecode_simpleUrlEncode, ← percentDecode_simpleUrlEncode, equal]

/-- Every path is encoded safely, and decoding gives it back and no other; every request is read as it was meant
unless the listener's raw prefix has a meaning in the query. -/
theorem queryValues_survive (base : BaseUrl) (path : Text) (request : QueryRequest) :
    (percentDecode (simpleUrlEncode path) = utf8 path ∧
      (∀ other, simpleUrlEncode other = simpleUrlEncode path → other = path) ∧ QuerySafe (simpleUrlEncode path) ∧
      (Url.query (request.url base path)).map formPairs = some (request.parameters path)) ↔
      (request = .connectAndListen → QueryClear path) := by
  rw [← QueryRequest.reads_iff base]
  constructor
  · rintro ⟨-, -, -, reads⟩
    exact reads
  · intro reads
    exact ⟨percentDecode_simpleUrlEncode path, fun other equal => simpleUrlEncode_injective equal,
      simpleUrlEncode_safe path, reads⟩

def localEngine : BaseUrl where
  scheme := text "http"
  authority := text "127.0.0.1:6830"
  mount := []
  special := Or.inl rfl
  host := PathRequest.localHost
  mounted := by simp

/-- The server filters the listener's events by a prefix that is not the relationship's. -/
theorem connectAndListen_misread :
    (Url.query (QueryRequest.connectAndListen.url localEngine (text "/c++/"))).map formPairs =
        some (QueryRequest.connectAndListen.parameters (text "/c  /")) ∧
      (Url.query (QueryRequest.connectAndListen.url localEngine (text "/c++/"))).map formPairs ≠
        some (QueryRequest.connectAndListen.parameters (text "/c++/")) := by
  decide +kernel

/-- The listener's URL for one prefix is the one of the request. -/
theorem eventsUrl_eq {connection : RemoteConnection} {base : BaseUrl} (based : normalizeUrl connection.url = base.text)
    (path : Text) : eventsUrl connection [path] = QueryRequest.connectAndListen.url base path := by
  simp [eventsUrl, QueryRequest.url, based]

end AeordbSync

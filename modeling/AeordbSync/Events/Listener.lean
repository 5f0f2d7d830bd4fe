import AeordbSync.Configuration.Store
import AeordbSync.Library.Framing
import AeordbSync.Library.Json
import AeordbSync.Library.Utf8
import AeordbSync.Routes.RemoteFiles

namespace AeordbSync
open Characters

/-- An event of the event stream of the remote. -/
structure RemoteEvent where
  eventId : Text
  eventType : Text
  timestamp : Int
  payload : Json

structure RemoteChange where
  eventType : Text
  path : Text
  deriving DecidableEq

def RemoteEvent.ofJson (json : Json) : Option RemoteEvent := do
  if json.isRecord 4 = false then none
  let eventId ← (json.member 0 (text "event_id")).bind Json.string?
  let eventType ← (json.member 1 (text "event_type")).bind Json.string?
  let timestamp ← (json.member 2 (text "timestamp")).bind Json.int64?
  let payload ← json.member 3 (text "payload")
  pure ⟨eventId, eventType, timestamp, payload⟩

def stripReturn (line : Text) : Text := if line.getLast? = some '\r' then line.dropLast else line

/-- The last line needs no newline, and keeps its carriage return then. -/
def lines (t : Text) : List Text :=
  let parts := t.splitOn '\n'
  let last := parts.getLast?.getD []
  parts.dropLast.map stripReturn ++ if last = [] then [] else [last]

def stripStart (start t : Text) : Option Text := start.isPrefixOf? t

/-- The event type and the data of a message, as far as its lines have been read. -/
structure SseFields where
  eventType : Option Text
  data : Option Text

def SseFields.readLine (fields : SseFields) (line : Text) : SseFields :=
  match stripStart (text "event: ") line with
  | some value => { fields with eventType := some (trim value) }
  | none => match stripStart (text "data: ") line with
    | some value => { fields with data := some (trim value) }
    | none => fields

/-- With several prefixes the paths are filtered here. -/
def changesOf (eventType : Text) (payload : Json) (pathPrefixes : List Text) : List RemoteChange :=
  match payload.get (text "entries") with
  | some (.array entries) => entries.filterMap fun entry =>
      match (entry.get (text "path")).bind Json.string? with
      | some path =>
          if pathPrefixes = [] ∨ pathPrefixes.any (fun start => start.isPrefixOf path) = true then
            some ⟨eventType, path⟩
          else none
      | none => none
  | _ => []

/-- How the HTTP library has answered, with the chunks of the body as they arrive. -/
structure StreamResponse where
  status : Nat
  statusText : Text
  chunks : List (Except Text Bytes)

/-- The event of the stream that the client itself serves. -/
structure RelationshipFileEvent where
  relationshipId : Text
  eventType : Text
  remotePath : Text
  path : Text
  deriving DecidableEq

inductive ServedEvent where
  | upstreamError (error : Text)
  | file (event : RelationshipFileEvent)
  deriving DecidableEq

/-- The text before the first empty line, and what comes after it. -/
def findMessage : Text → Option (Text × Text)
  | [] => none
  | c :: rest =>
      if c = '\n' ∧ rest.head? = some '\n' then some ([], rest.tail)
      else (findMessage rest).map fun found => (c :: found.1, found.2)

theorem findMessage_whole {buffer message rest : Text} (found : findMessage buffer = some (message, rest)) :
    buffer = message ++ text "\n\n" ++ rest := by
  induction buffer generalizing message with
  | nil => cases found
  | cons c buffer ih =>
      unfold findMessage at found
      split at found
      next boundary =>
        obtain ⟨rfl, second⟩ := boundary
        cases buffer with
        | nil => cases second
        | cons d buffer =>
            cases second
            cases found
            rfl
      next =>
        obtain ⟨⟨front, back⟩, inside, equal⟩ := Option.map_eq_some_iff.mp found
        cases equal
        exact congrArg (c :: ·) (ih inside)

theorem findMessage_append {buffer message rest : Text} (found : findMessage buffer = some (message, rest))
    (more : Text) : findMessage (buffer ++ more) = some (message, rest ++ more) := by
  induction buffer generalizing message with
  | nil => cases found
  | cons c buffer ih =>
      unfold findMessage at found
      rw [List.cons_append, findMessage]
      split at found
      next boundary =>
        obtain ⟨rfl, second⟩ := boundary
        cases buffer with
        | nil => cases second
        | cons d buffer =>
            cases second
            cases found
            rfl
      next apart =>
        obtain ⟨⟨front, back⟩, inside, equal⟩ := Option.map_eq_some_iff.mp found
        cases equal
        have same : (buffer ++ more).head? = buffer.head? := by
          cases buffer with
          | nil => cases inside
          | cons d buffer => rfl
        rw [same, if_neg apart, ih inside]
        rfl

/-- Messages end with an empty line. -/
def messageCutter : Cutter Char Text where
  cut := findMessage
  frame message := message ++ text "\n\n"
  filled message := by simp [text]
  whole := findMessage_whole
  stable := findMessage_append

section

variable (parse : Text → Option Json)

def parseSseMessage (message : Text) (pathPrefixes : List Text) : Option (List RemoteChange) := do
  let fields := (lines message).foldl SseFields.readLine ⟨none, none⟩
  let eventType ← fields.eventType
  let data ← fields.data
  let event ← (parse data).bind RemoteEvent.ofJson
  let changes := changesOf eventType event.payload pathPrefixes
  if changes = [] then none else some changes

/-- The changes are sent one by one, until the receiver is gone. -/
def sendAll (accepts : List RemoteChange → Bool) (sent : List RemoteChange) :
    List RemoteChange → List RemoteChange × Bool
  | [] => (sent, true)
  | change :: changes =>
      if accepts sent = true then sendAll accepts (sent ++ [change]) changes else (sent, false)

/-- The complete messages of the buffer are sent on. The result tells whether the receiver is still there. -/
def processBuffer (accepts : List RemoteChange → Bool) (pathPrefixes : List Text) (buffer : Text)
    (sent : List RemoteChange) : Text × List RemoteChange × Bool :=
  match _ : findMessage buffer with
  | none => (buffer, sent, true)
  | some (message, rest) => match parseSseMessage parse message pathPrefixes with
      | none => processBuffer accepts pathPrefixes rest sent
      | some changes => match sendAll accepts sent changes with
          | (sent, true) => processBuffer accepts pathPrefixes rest sent
          | (sent, false) => (rest, sent, false)
termination_by buffer.length
decreasing_by all_goals exact messageCutter.shorter ‹_›

/-- Each chunk is decoded for itself and put behind what is left of those before. -/
def listen (accepts : List RemoteChange → Bool) (pathPrefixes : List Text) (buffer : Text)
    (sent : List RemoteChange) : List (Except Text Bytes) → Except ClientError Unit × List RemoteChange
  | [] => (.ok (), sent)
  | .error error :: _ => (.error (.server (text "SSE read error: " ++ error)), sent)
  | .ok chunk :: rest =>
      match processBuffer parse accepts pathPrefixes (buffer ++ fromUtf8Lossy chunk) sent with
      | (buffer, sent, true) => listen accepts pathPrefixes buffer sent rest
      | (_, sent, false) => (.ok (), sent)

/-- A single prefix is left to the server as well. -/
def eventsUrl (connection : RemoteConnection) (pathPrefixes : List Text) : Text :=
  let url := normalizeUrl connection.url ++ text "/system/events?events=entries_created,entries_deleted"
  match pathPrefixes with
  | [start] => url ++ text "&path_prefix=" ++ start
  | _ => url

def eventsAuthorization (connection : RemoteConnection) : Option Text :=
  if connection.authType = AuthType.apiKey then connection.apiKey.map (text "Bearer " ++ ·) else none

/-- The changes that are sent before the stream ends or the receiver is gone. -/
def connectAndListen (connection : RemoteConnection) (pathPrefixes : List Text)
    (send : Text → Option Text → Except Text StreamResponse) (accepts : List RemoteChange → Bool) :
    Except ClientError Unit × List RemoteChange :=
  match send (eventsUrl connection pathPrefixes) (eventsAuthorization connection) with
  | .error error => (.error (.server (text "SSE connect failed: " ++ error)), [])
  | .ok response =>
      if isSuccess response.status = true then listen parse accepts pathPrefixes [] [] response.chunks
      else (.error (.server (text "SSE returned HTTP " ++ response.statusText)), [])

def relationshipRelativePath (relationshipRemotePath remotePath : Text) : Option Text :=
  let remotePath := if remotePath.head? = some '/' then remotePath else '/' :: remotePath
  let base := trimEndMatches '/' relationshipRemotePath
  if base = [] ∨ base = ['/'] then some remotePath
  else if remotePath = base then some ['/']
  else (stripStart (base ++ ['/']) remotePath).map fun relative => '/' :: relative

/-- A change outside the relationship is left out. -/
def fileEvents (relationship : SyncRelationship) (changes : List RemoteChange) : List ServedEvent :=
  changes.filterMap fun change =>
    (relationshipRelativePath relationship.remotePath change.path).map fun path =>
      .file ⟨relationship.id, change.eventType, change.path, path⟩

/-- The events of the complete messages of the buffer, and what is left of it. -/
def serveBuffer (relationship : SyncRelationship) (buffer : Text) : List ServedEvent × Text :=
  match _ : findMessage buffer with
  | none => ([], buffer)
  | some (message, rest) => match parseSseMessage parse message [relationship.remotePath] with
      | none => serveBuffer relationship rest
      | some changes =>
          let later := serveBuffer relationship rest
          (fileEvents relationship changes ++ later.1, later.2)
termination_by buffer.length
decreasing_by all_goals exact messageCutter.shorter ‹_›

def serve (relationship : SyncRelationship) (buffer : Text) : List (Except Text Bytes) → List ServedEvent
  | [] => []
  | .error error :: _ => [.upstreamError error]
  | .ok chunk :: rest =>
      let served := serveBuffer parse relationship (buffer ++ fromUtf8Lossy chunk)
      served.1 ++ serve relationship served.2 rest

/-- The stream of the remote is asked for below the remote path of the relationship. -/
def relationshipFileEvents (config : ClientConfig) (relationshipId : Text)
    (fileEventStream : RemoteConnection → Text → Except ClientError (List (Except Text Bytes))) :
    Except ClientError (List ServedEvent) := do
  let (relationship, connection) ← Routes.loadRelationshipClient config relationshipId
  let chunks ← fileEventStream connection relationship.remotePath
  pure (serve parse relationship [] chunks)

end

end AeordbSync

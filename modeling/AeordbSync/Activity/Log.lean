import Mathlib.Data.Prod.Lex
import Mathlib.Data.List.Lex
import Mathlib.Data.Char
import Mathlib.Data.Int.Order.Basic
import AeordbSync.Library.Newest
import AeordbSync.State.Engine

namespace AeordbSync
open Characters Effect StateStore Newest

def latestEventsLimit : Nat := 100

/-- A recorded event. Identifiers are made of hexadecimal digits and hyphens. -/
structure SyncEvent where
  id : Text
  relationshipId : Text
  relationshipName : Text
  eventType : Text
  summary : Text
  filesAffected : Nat
  bytesTransferred : Nat
  durationMs : Nat
  errors : List Text
  timestamp : Int
  flat : '/' ∉ id
  deriving DecidableEq

namespace SyncEvent

def json (event : SyncEvent) : Json :=
  .object [⟨text "id", .string event.id⟩, ⟨text "relationship_id", .string event.relationshipId⟩,
    ⟨text "relationship_name", .string event.relationshipName⟩, ⟨text "event_type", .string event.eventType⟩,
    ⟨text "summary", .string event.summary⟩, ⟨text "files_affected", .number event.filesAffected⟩,
    ⟨text "bytes_transferred", .number event.bytesTransferred⟩, ⟨text "duration_ms", .number event.durationMs⟩,
    ⟨text "errors", .array (event.errors.map Json.string)⟩, ⟨text "timestamp", .number event.timestamp⟩]

def errorsOfJson : Json → Option (List Text)
  | .array items => items.mapM Json.string?
  | _ => none

def ofJson (json : Json) : Option SyncEvent := do
  let id ← (json.get (text "id")).bind Json.string?
  let relationshipId ← (json.get (text "relationship_id")).bind Json.string?
  let relationshipName ← (json.get (text "relationship_name")).bind Json.string?
  let eventType ← (json.get (text "event_type")).bind Json.string?
  let summary ← (json.get (text "summary")).bind Json.string?
  let filesAffected ← (json.get (text "files_affected")).bind Json.nat?
  let bytesTransferred ← (json.get (text "bytes_transferred")).bind Json.nat?
  let durationMs ← (json.get (text "duration_ms")).bind Json.nat?
  let errors ← (json.get (text "errors")).bind errorsOfJson
  let timestamp ← (json.get (text "timestamp")).bind Json.number?
  if flat : '/' ∉ id then
    some ⟨id, relationshipId, relationshipName, eventType, summary, filesAffected, bytesTransferred,
      durationMs, errors, timestamp, flat⟩
  else none

def listJson (events : List SyncEvent) : Json := .array (events.map json)

def listOfJson : Json → Option (List SyncEvent)
  | .array items => items.mapM ofJson
  | _ => none

/-- Events are ordered by time, and by their identifiers at the same time. -/
def key (event : SyncEvent) : Int ×ₗ Text := toLex (event.timestamp, event.id)

theorem key_injOn {events : List SyncEvent} (distinct : (events.map id).Nodup) : (events.map key).Nodup := by
  apply List.Nodup.of_map (fun place : Int ×ₗ Text => (ofLex place).2)
  rw [List.map_map]
  exact distinct

theorem mapM_some {α β : Type} {f : α → Option β} {g : β → α} (inverse : ∀ b, f (g b) = some b) (bs : List β) :
    (bs.map g).mapM f = some bs := by
  induction bs with
  | nil => rfl
  | cons b rest ih => simp [inverse, ih]

theorem ofJson_json (event : SyncEvent) : ofJson event.json = some event := by
  have errors : errorsOfJson (.array (event.errors.map Json.string)) = some event.errors :=
    mapM_some (g := Json.string) (fun _ => rfl) event.errors
  simp only [ofJson, json, Json.get, Json.fields]
  simp [List.dlookup, text, Json.string?, Json.nat?, Json.number?, errors, event.flat]

theorem listOfJson_listJson (events : List SyncEvent) : listOfJson (listJson events) = some events :=
  mapM_some ofJson_json events

end SyncEvent

def signedDecimal (n : Int) : Text := if n < 0 then '-' :: decimal n.natAbs else decimal n.natAbs

/-- The first bytes of a text, when a character ends there. -/
def bytePrefix : Nat → Text → Option Text
  | n, [] => if n = 0 then some [] else none
  | n, c :: rest =>
      if n = 0 then some []
      else if c.utf8Size ≤ n then (bytePrefix (n - c.utf8Size) rest).map (c :: ·)
      else none

def shortId (id : Text) : Text := (bytePrefix 8 id).getD id

def activityDir (relationshipId : Text) : Text := text "/sync/activity/" ++ relationshipId ++ text "/"

def latestEventsName : Text := text "latest-events.json"

def indexPath (relationshipId : Text) : Text := activityDir relationshipId ++ latestEventsName

def eventName (event : SyncEvent) : Text :=
  signedDecimal event.timestamp ++ text "-" ++ shortId event.id ++ text ".json"

def eventPath (event : SyncEvent) : Text := activityDir event.relationshipId ++ eventName event

def isEventName (name : Text) : Bool :=
  decide (text ".json" <:+ name) && decide (name ≠ text ".keep") && decide (name ≠ latestEventsName) &&
    decide (name ≠ text "latest-progress.json")

def isDurableActivityEvent (event : SyncEvent) : Bool := decide (event.eventType ≠ text "progress")

/-- The first event with an identifier stays. -/
def dedupeEvents (seen : List Text) : List SyncEvent → List SyncEvent
  | [] => []
  | event :: rest =>
      if event.id ∈ seen then dedupeEvents seen rest else event :: dedupeEvents (event.id :: seen) rest

def sortDedupeTruncate (limit : Nat) (events : List SyncEvent) : List SyncEvent :=
  (dedupeEvents [] (descending SyncEvent.key events)).take limit

/-- Durable events are kept in the state database, and one event of progress for each relationship in memory. -/
structure ActivityLog (σ : Type) where
  state : StateStore σ
  latestProgress : Text → Option SyncEvent

variable {σ α : Type} (engine : StateEngine σ)

abbrev ActivityProgram (σ α : Type) := Proc (ActivityLog σ) ClientError α

def onState (x : Call σ α) : ActivityProgram σ α :=
  Proc.zoom ActivityLog.state (fun state log => { log with state := state }) x

def readIndex (relationshipId : Text) : Call σ (Option (List SyncEvent)) :=
  readJson engine SyncEvent.listOfJson (indexPath relationshipId)

def storeIndex (relationshipId : Text) (events : List SyncEvent) : Call σ Unit :=
  storeJson engine (indexPath relationshipId) (SyncEvent.listJson events)

def extendIndex (event : SyncEvent) (events : List SyncEvent) : List SyncEvent :=
  sortDedupeTruncate latestEventsLimit ((events ++ [event]).filter isDurableActivityEvent)

def updateLatestEventsIndex (event : SyncEvent) : Call σ Unit := do
  let events ← readIndex engine event.relationshipId
  storeIndex engine event.relationshipId (extendIndex event (events.getD []))

def setProgress (relationshipId : Text) (event : Option SyncEvent) (log : ActivityLog σ) : ActivityLog σ :=
  { log with latestProgress := Function.update log.latestProgress relationshipId event }

def logEvent (event : SyncEvent) : ActivityProgram σ Unit := do
  if event.eventType = text "progress" then Proc.modify (setProgress event.relationshipId (some event))
  else
    onState (storeJson engine (eventPath event) event.json)
    onState (updateLatestEventsIndex engine event)
    Proc.modify (setProgress event.relationshipId none)

/-- The durable events of the files, each identifier once. -/
def readEvents (directory : Text) (seen : List Text) : List Text → Call σ (List SyncEvent)
  | [] => pure []
  | name :: rest => do
      match ← readJson engine SyncEvent.ofJson (directory ++ name) with
      | some event =>
          if isDurableActivityEvent event = true ∧ event.id ∉ seen then
            let others ← readEvents directory (event.id :: seen) rest
            pure (event :: others)
          else readEvents directory seen rest
      | none => readEvents directory seen rest

/-- Without an index the newest files are read, and what they give is stored as the index. -/
def backfillEvents (relationshipId : Text) (limit : Nat) (progress : List SyncEvent) :
    Call σ (List SyncEvent) := do
  let directory := activityDir relationshipId
  if ← pathExists engine directory then
    let names ← listDirectory engine directory
    let entries := (names.filter isEventName).insertionSort fun a b => b ≤ a
    let found ← readEvents engine directory (progress.map SyncEvent.id) (entries.take (limit * 2 + 10))
    let events := sortDedupeTruncate limit (progress ++ found)
    let _ ← Proc.attempt (storeIndex engine relationshipId events)
    pure events
  else pure (sortDedupeTruncate limit progress)

def getEvents (relationshipId : Text) (limit : Nat) : ActivityProgram σ (List SyncEvent) := do
  if limit = 0 then pure []
  else
    let log ← Proc.get
    let progress := (log.latestProgress relationshipId).toList
    match ← onState (readIndex engine relationshipId) with
    | some events => pure (sortDedupeTruncate limit (events.filter isDurableActivityEvent ++ progress))
    | none => onState (backfillEvents engine relationshipId limit progress)

inductive ActivityCall where
  | logEvent (event : SyncEvent)
  | getEvents (relationshipId : Text) (limit : Nat)

def ActivityCall.perform : ActivityCall → ActivityProgram σ Unit
  | .logEvent event => AeordbSync.logEvent engine event
  | .getEvents relationshipId limit => do
      let _ ← AeordbSync.getEvents engine relationshipId limit
      pure ()

/-- The log after a sequence of calls, each of which may fail. -/
def ActivityLog.after (calls : List ActivityCall) (log : ActivityLog σ) : ActivityLog σ :=
  calls.foldl (fun log call => (call.perform engine log).2) log

end AeordbSync

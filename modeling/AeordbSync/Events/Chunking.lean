import AeordbSync.Events.Listener

namespace AeordbSync
open Characters

/-- The complete messages that are found in chunks which are decoded one by one. -/
def messagesOf (chunks : List Bytes) : List Text := (messageCutter.drain (chunks.flatMap fromUtf8Lossy)).1

/-- The chunks of a stream, and the failure that it ends with, if there is one. -/
def arriving (chunks : List Bytes) (failure : Option Text) : List (Except Text Bytes) :=
  chunks.map Except.ok ++ failure.toList.map Except.error

def ending : Option Text → Except ClientError Unit
  | none => .ok ()
  | some error => .error (.server (text "SSE read error: " ++ error))

section

variable {parse : Text → Option Json} {accepts : List RemoteChange → Bool} {pathPrefixes : List Text}

def changesIn (parse : Text → Option Json) (pathPrefixes messages : List Text) : List RemoteChange :=
  messages.flatMap fun message => (parseSseMessage parse message pathPrefixes).getD []

theorem changesIn_cons (message : Text) (messages : List Text) :
    changesIn parse pathPrefixes (message :: messages) =
      (parseSseMessage parse message pathPrefixes).getD [] ++ changesIn parse pathPrefixes messages := rfl

theorem sendAll_cons (sent : List RemoteChange) (change : RemoteChange) (changes : List RemoteChange) :
    sendAll accepts sent (change :: changes) =
      if accepts sent = true then sendAll accepts (sent ++ [change]) changes else (sent, false) := rfl

theorem sendAll_append (sent first second : List RemoteChange) :
    sendAll accepts sent (first ++ second) =
      if (sendAll accepts sent first).2 = true then sendAll accepts (sendAll accepts sent first).1 second
      else sendAll accepts sent first := by
  induction first generalizing sent with
  | nil => rfl
  | cons change first ih =>
      rw [List.cons_append, sendAll_cons, sendAll_cons]
      split
      · exact ih _
      · rfl

/-- Processing the buffer sends the changes of its messages, and leaves what is left of it. -/
theorem processBuffer_spec (buffer : Text) (sent : List RemoteChange) :
    (processBuffer parse accepts pathPrefixes buffer sent).2 =
        sendAll accepts sent (changesIn parse pathPrefixes (messageCutter.drain buffer).1) ∧
      ((processBuffer parse accepts pathPrefixes buffer sent).2.2 = true →
        (processBuffer parse accepts pathPrefixes buffer sent).1 = (messageCutter.drain buffer).2) := by
  induction length : buffer.length using Nat.strong_induction_on generalizing buffer sent with
  | _ n ih =>
      rw [processBuffer]
      split
      next none =>
        rw [messageCutter.drain_none none]
        exact ⟨rfl, fun _ => rfl⟩
      next message rest found =>
        have less := messageCutter.shorter found
        have later := ih _ (length ▸ less) rest
        rw [messageCutter.drain_some found, changesIn_cons]
        split
        next unread =>
          rw [unread]
          exact later sent rfl
        next changes read =>
          rw [read, Option.getD_some, sendAll_append]
          split
          next next passed =>
            rw [passed, if_pos rfl]
            exact later next rfl
          next next passed =>
            rw [passed, if_neg Bool.false_ne_true]
            exact ⟨rfl, fun still => by cases still⟩

/-- The listener sends the changes of the messages that the chunks make. -/
theorem listen_arriving (chunks : List Bytes) (failure : Option Text) (buffer : Text) (sent : List RemoteChange)
    (open_ : findMessage buffer = none) :
    listen parse accepts pathPrefixes buffer sent (arriving chunks failure) =
      (let outcome := sendAll accepts sent
        (changesIn parse pathPrefixes (messageCutter.drain (buffer ++ chunks.flatMap fromUtf8Lossy)).1)
      (if outcome.2 = true then ending failure else .ok (), outcome.1)) := by
  induction chunks generalizing buffer sent with
  | nil =>
      rw [List.flatMap_nil, List.append_nil, messageCutter.drain_none open_]
      cases failure <;> rfl
  | cons chunk chunks ih =>
      show listen parse accepts pathPrefixes buffer sent (.ok chunk :: arriving chunks failure) = _
      obtain ⟨outcome, left⟩ := @processBuffer_spec parse accepts pathPrefixes (buffer ++ fromUtf8Lossy chunk) sent
      rw [List.flatMap_cons, ← List.append_assoc, messageCutter.drain_append]
      unfold changesIn at outcome ⊢
      rw [List.flatMap_append, sendAll_append, ← outcome, listen]
      split
      next next later passed =>
        rw [passed] at left ⊢
        obtain rfl := left rfl
        rw [if_pos rfl]
        exact ih _ _ (messageCutter.drain_left _)
      next next later passed =>
        rw [passed, if_neg Bool.false_ne_true]
        rfl

variable {relationship : SyncRelationship}

/-- What the client serves for its messages. -/
def servedFor (parse : Text → Option Json) (relationship : SyncRelationship) (messages : List Text) : List ServedEvent :=
  messages.flatMap fun message =>
    fileEvents relationship ((parseSseMessage parse message [relationship.remotePath]).getD [])

theorem servedFor_append (first second : List Text) :
    servedFor parse relationship (first ++ second) =
      servedFor parse relationship first ++ servedFor parse relationship second := List.flatMap_append

theorem serveBuffer_eq (buffer : Text) :
    serveBuffer parse relationship buffer =
      (servedFor parse relationship (messageCutter.drain buffer).1, (messageCutter.drain buffer).2) := by
  induction length : buffer.length using Nat.strong_induction_on generalizing buffer with
  | _ n ih =>
      rw [serveBuffer]
      split
      next none =>
        rw [messageCutter.drain_none none]
        rfl
      next message rest found =>
        have later := ih _ (length ▸ messageCutter.shorter found) rest rfl
        rw [messageCutter.drain_some found, later]
        unfold servedFor
        rw [List.flatMap_cons]
        split
        next unread =>
          rw [unread]
          rfl
        next changes read =>
          rw [read]
          rfl

/-- The client serves what the messages that the chunks make tell, and how the stream fails. -/
theorem serve_arriving (chunks : List Bytes) (failure : Option Text) (buffer : Text) (empty : findMessage buffer = none) :
    serve parse relationship buffer (arriving chunks failure) =
      servedFor parse relationship (messageCutter.drain (buffer ++ chunks.flatMap fromUtf8Lossy)).1 ++
        failure.toList.map ServedEvent.upstreamError := by
  induction chunks generalizing buffer with
  | nil =>
      rw [List.flatMap_nil, List.append_nil, messageCutter.drain_none empty]
      cases failure <;> rfl
  | cons chunk chunks ih =>
      show serve parse relationship buffer (.ok chunk :: arriving chunks failure) = _
      rw [serve, serveBuffer_eq, ih _ (messageCutter.drain_left _), List.flatMap_cons, ← List.append_assoc,
        ← List.append_assoc, messageCutter.drain_append (buffer ++ fromUtf8Lossy chunk), servedFor_append]

end

theorem messagesOf_whole (t : Text) : messagesOf [utf8 t] = (messageCutter.drain t).1 := by
  unfold messagesOf
  rw [List.flatMap_singleton, fromUtf8Lossy_utf8]

theorem messagesOf_between {t : Text} {chunks : List Bytes} (whole : chunks.flatten = utf8 t)
    (between : BetweenCharacters chunks) : messagesOf chunks = messagesOf [utf8 t] := by
  rw [messagesOf_whole]
  unfold messagesOf
  rw [(read_iff_between whole).mpr between]

theorem getLast_utf8 {t : Text} (ends : t.getLast? = some '\n') : (utf8 t).getLast? = some 10 := by
  obtain ⟨front, rfl⟩ := List.getLast?_eq_some_iff.mp ends
  unfold utf8
  rw [List.flatMap_append]
  exact List.getLast?_concat

theorem between_of_empty {chunks : List Bytes} (empty : chunks.flatten = []) : BetweenCharacters chunks := by
  intro chunk inside b first
  rw [List.flatten_eq_nil_iff.mp empty chunk inside] at first
  cases first

/-- A stream of complete messages ends with a newline. -/
theorem getLast_complete {t : Text} (complete : (messageCutter.drain t).2 = []) (filled : t ≠ []) :
    t.getLast? = some '\n' := by
  have whole := messageCutter.drain_whole t
  rw [complete, List.append_nil] at whole
  rcases List.eq_nil_or_concat (messageCutter.drain t).1 with none | ⟨front, message, last⟩
  · rw [none] at whole
    exact absurd whole filled
  · rw [last, List.concat_eq_append, List.flatMap_append, List.flatMap_singleton] at whole
    rw [whole, List.getLast?_append_of_ne_nil _ (messageCutter.filled message)]
    show (message ++ text "\n\n").getLast? = _
    rw [List.getLast?_append_of_ne_nil _ (by decide)]
    rfl

/-- Where the stream is made of complete messages, they are found exactly when no chunk starts inside a character. -/
theorem messagesOf_iff {t : Text} {chunks : List Bytes} (whole : chunks.flatten = utf8 t)
    (complete : (messageCutter.drain t).2 = []) :
    messagesOf chunks = messagesOf [utf8 t] ↔ BetweenCharacters chunks := by
  refine ⟨fun same => ?_, messagesOf_between whole⟩
  by_cases empty : t = []
  · exact between_of_empty (by rw [whole, empty]; rfl)
  refine (read_iff_between whole).mp ?_
  rw [messagesOf_whole] at same
  have found := messageCutter.drain_whole t
  have read := messageCutter.drain_whole (chunks.flatMap fromUtf8Lossy)
  rw [complete, List.append_nil] at found
  unfold messagesOf at same
  rw [same, ← found] at read
  rcases List.eq_nil_or_concat (messageCutter.drain (chunks.flatMap fromUtf8Lossy)).2 with none | ⟨front, c, more⟩
  · rw [none, List.append_nil] at read
    exact read
  · -- A rest ends with another newline, and there are no more newlines than in the text.
    exfalso
    rw [more, List.concat_eq_append] at read
    have last := getLast_read (whole ▸ getLast_utf8 (getLast_complete complete empty))
    have bound := (count_newline_read chunks).trans (whole ▸ count_newline_utf8 t)
    rw [read, ← List.append_assoc, List.getLast?_concat] at last
    rw [read, Option.some.inj last, List.count_append, List.count_append, List.count_singleton_self] at bound
    omega

/-- A stream that arrives in chunks gives the changes and the events of the whole, where no chunk starts inside a
character. Where the stream is made of complete messages, they are all found only then. -/
theorem listening_chunked (parse : Text → Option Json) (connection : RemoteConnection) (pathPrefixes : List Text)
    (accepts : List RemoteChange → Bool) (config : ClientConfig) (relationshipId : Text) (status : Nat)
    (statusText : Text) (failure : Option Text) {t : Text} {chunks : List Bytes} (whole : chunks.flatten = utf8 t) :
    (BetweenCharacters chunks →
      connectAndListen parse connection pathPrefixes
          (fun _ _ => .ok ⟨status, statusText, arriving chunks failure⟩) accepts =
        connectAndListen parse connection pathPrefixes
          (fun _ _ => .ok ⟨status, statusText, arriving [utf8 t] failure⟩) accepts ∧
      relationshipFileEvents parse config relationshipId (fun _ _ => .ok (arriving chunks failure)) =
        relationshipFileEvents parse config relationshipId (fun _ _ => .ok (arriving [utf8 t] failure))) ∧
    ((messageCutter.drain t).2 = [] → (messagesOf chunks = messagesOf [utf8 t] ↔ BetweenCharacters chunks)) := by
  refine ⟨fun between => ?_, messagesOf_iff whole⟩
  have same : messagesOf chunks = messagesOf [utf8 t] := messagesOf_between whole between
  unfold messagesOf at same
  constructor
  · unfold connectAndListen
    dsimp only
    rw [listen_arriving chunks failure [] [] rfl, listen_arriving [utf8 t] failure [] [] rfl, List.nil_append,
      List.nil_append, same]
  · unfold relationshipFileEvents
    refine congrArg (_ >>= ·) (funext fun loaded => ?_)
    show Except.ok (serve parse loaded.1 [] (arriving chunks failure)) =
      Except.ok (serve parse loaded.1 [] (arriving [utf8 t] failure))
    rw [serve_arriving chunks failure [] rfl, serve_arriving [utf8 t] failure [] rfl, List.nil_append,
      List.nil_append, same]

namespace Chunked

def opening : Text := text
  "\x7b\"event_id\":\"e1\",\"event_type\":\"entries_created\",\"timestamp\":1,\"payload\":\x7b\"entries\":[\x7b\"path\":\""

def closing : Text := text "\"\x7d]\x7d\x7d"

/-- The JSON of an event with one entry. -/
def entryEvent (path : Text) : Json :=
  .object [⟨text "event_id", .string (text "e1")⟩, ⟨text "event_type", .string (text "entries_created")⟩,
    ⟨text "timestamp", .number 1⟩,
    ⟨text "payload", .object [⟨text "entries", .array [.object [⟨text "path", .string path⟩]]⟩]⟩]

/-- What is written in this form is read so. -/
def parseEntry (data : Text) : Option Json := do
  let rest ← stripStart opening data
  let path := rest.take (rest.length - closing.length)
  if path ++ closing = rest ∧ path.all (fun c => c != '"' && c != '\\' && decide (0x20 ≤ c.toNat)) = true then
    some (entryEvent path)
  else none

def before : Text := text "event: entries_created\ndata: " ++ opening ++ text "/caf"

def after : Text := closing ++ text "\n\n"

def stream : Text := before ++ 'é' :: after

/-- The first chunk ends after the first of the two bytes of a character. -/
def split : List Bytes := [utf8 before ++ [0xC3], 0xA9 :: utf8 after]

def apart : List Bytes := [utf8 before, utf8 ('é' :: after)]

def connection : RemoteConnection where
  id := text "c1"
  name := text "c"
  url := text "http://remote"
  authType := .none
  apiKey := none
  shareBaseUrl := none
  createdAt := 0
  updatedAt := 0

def answered (chunks : List Bytes) : Text → Option Text → Except Text StreamResponse :=
  fun _ _ => .ok ⟨200, text "200 OK", arriving chunks none⟩

def relationship : StoredRelationship where
  id := text "r1"
  name := text "r"
  remoteConnectionId := text "c1"
  remotePath := text "/"
  localPath := text "/home"
  direction := .bidirectional
  filter := none
  deletePropagation := ⟨false, false⟩
  enabled := true
  createdAt := 0
  updatedAt := 0

def config : ClientConfig := ⟨[connection], [relationship], .initial⟩

def changes (chunks : List Bytes) : List RemoteChange :=
  (connectAndListen parseEntry connection [] (answered chunks) fun _ => true).2

def events (chunks : List Bytes) : Option (List ServedEvent) :=
  (relationshipFileEvents parseEntry config (text "r1") fun _ _ => .ok (arriving chunks none)).toOption

def message (middle : Text) : Text := before ++ (middle ++ closing)

theorem drain_one {buffer first : Text} (found : findMessage buffer = some (first, [])) :
    messageCutter.drain buffer = ([first], []) := by
  have rest : messageCutter.drain [] = ([], []) := messageCutter.drain_none rfl
  rw [messageCutter.drain_some found, rest]

/-- One message has been found, and it names a path with these characters in the middle. -/
theorem found_message {chunks : List Bytes} {middle : Text}
    (read : chunks.flatMap fromUtf8Lossy = message middle ++ text "\n\n")
    (found : findMessage (message middle ++ text "\n\n") = some (message middle, []))
    (parsed : ∀ start, start = [] ∨ start = [text "/"] → parseSseMessage parseEntry (message middle) start =
      some [⟨text "entries_created", text "/caf" ++ middle⟩]) :
    changes chunks = [⟨text "entries_created", text "/caf" ++ middle⟩] ∧
      events chunks =
        some [.file ⟨text "r1", text "entries_created", text "/caf" ++ middle, text "/caf" ++ middle⟩] := by
  have drained := drain_one found
  constructor
  · unfold changes connectAndListen answered
    dsimp only
    rw [listen_arriving chunks none [] [] rfl, List.nil_append, read, drained, changesIn_cons,
      parsed [] (Or.inl rfl)]
    rfl
  · show some (serve parseEntry relationship.toSyncRelationship [] (arriving chunks none)) = _
    rw [serve_arriving chunks none [] rfl, List.nil_append, read, drained]
    unfold servedFor
    rw [List.flatMap_singleton, show [relationship.remotePath] = [text "/"] from rfl, parsed _ (Or.inr rfl)]
    rfl

theorem found_stream : changes [utf8 stream] = [⟨text "entries_created", text "/café"⟩] ∧
    events [utf8 stream] = some [.file ⟨text "r1", text "entries_created", text "/café", text "/café"⟩] := by
  refine @found_message _ ['é'] ?_ (by decide +kernel) ?_
  · rw [List.flatMap_singleton, fromUtf8Lossy_utf8]
    rfl
  · rintro start (rfl | rfl) <;> decide +kernel

theorem listening_chunked_apart : messagesOf apart = messagesOf [utf8 stream] ∧
    changes apart = [⟨text "entries_created", text "/café"⟩] ∧
    events apart = some [.file ⟨text "r1", text "entries_created", text "/café", text "/café"⟩] := by
  have between : BetweenCharacters apart := by decide +kernel
  obtain ⟨same, found⟩ := listening_chunked parseEntry connection [] (fun _ => true) config (text "r1") 200
    (text "200 OK") none (show apart.flatten = utf8 stream by decide +kernel)
  have complete : (messageCutter.drain stream).2 = [] :=
    congrArg Prod.snd (@drain_one stream (message ['é']) (by decide +kernel))
  exact ⟨(found complete).mpr between, (congrArg Prod.snd (same between).1).trans found_stream.1,
    (congrArg Except.toOption (same between).2).trans found_stream.2⟩

/-- The path of the change is another one where a chunk ends inside a character. -/
theorem listening_split : split.flatten = utf8 stream ∧ changes split ≠ changes [utf8 stream] ∧
    events split ≠ events [utf8 stream] := by
  have damaged := @found_message split ['\uFFFD', '\uFFFD'] ?_ (by decide +kernel) ?_
  · rw [damaged.1, damaged.2, found_stream.1, found_stream.2]
    decide +kernel
  · have front : fromUtf8Lossy (utf8 before ++ [0xC3]) = before ++ ['\uFFFD'] := by
      rw [fromUtf8Lossy_append (by decide +kernel), fromUtf8Lossy_utf8]
      rfl
    have back : fromUtf8Lossy (0xA9 :: utf8 after) = '\uFFFD' :: after := by
      rw [fromUtf8Lossy_refused rfl, fromUtf8Lossy_utf8]
      rfl
    unfold split
    rw [List.flatMap_cons, List.flatMap_singleton, front, back]
    simp only [message, after, List.append_assoc, List.cons_append, List.nil_append]
  · rintro start (rfl | rfl) <;> decide +kernel

end Chunked

end AeordbSync

import AeordbSync.Activity.Log

namespace AeordbSync
open Characters Effect StateStore Newest

/-- Names without a separator are read back from the end of a path. -/
theorem slash_append_inj {front other name more : Text} (free : '/' ∉ name) (free' : '/' ∉ more)
    (equal : front ++ '/' :: name = other ++ '/' :: more) : front = other ∧ name = more := by
  rcases List.append_eq_append_iff.mp equal with ⟨between, behind, ahead⟩ | ⟨between, behind, ahead⟩
  · cases between with
    | nil => simp_all
    | cons c rest =>
        rw [List.cons_append, List.cons.injEq] at ahead
        exact absurd (ahead.2 ▸ List.mem_append_right rest List.mem_cons_self) free
  · cases between with
    | nil => simp_all
    | cons c rest =>
        rw [List.cons_append, List.cons.injEq] at ahead
        exact absurd (ahead.2 ▸ List.mem_append_right rest List.mem_cons_self) free'

theorem decimal_digit {n : Nat} {c : Char} (inside : c ∈ decimal n) : c.isDigit = true :=
  Nat.isDigit_of_mem_toDigits (by decide) (by decide) inside

theorem signedDecimal_char {n : Int} {c : Char} (inside : c ∈ signedDecimal n) : c = '-' ∨ c.isDigit = true := by
  unfold signedDecimal at inside
  split at inside
  · exact (List.mem_cons.mp inside).imp_right decimal_digit
  · exact .inr (decimal_digit inside)

theorem bytePrefix_front {n : Nat} {t front : Text} (found : bytePrefix n t = some front) : front <+: t := by
  induction t generalizing n front with
  | nil =>
      simp only [bytePrefix] at found
      split at found
      · cases found
        exact List.nil_prefix
      · cases found
  | cons c rest ih =>
      simp only [bytePrefix] at found
      split at found
      · cases found
        exact List.nil_prefix
      · split at found
        · obtain ⟨tail, more, rfl⟩ := Option.map_eq_some_iff.mp found
          exact List.cons_prefix_cons.mpr ⟨rfl, ih more⟩
        · cases found

theorem shortId_subset (id : Text) : shortId id ⊆ id := by
  unfold shortId
  cases found : bytePrefix 8 id with
  | none => exact List.Subset.refl id
  | some front => exact (bytePrefix_front found).subset

/-- The files of the events are names of one directory. -/
theorem eventName_flat (event : SyncEvent) : '/' ∉ eventName event := by
  intro inside
  simp only [eventName, List.mem_append] at inside
  rcases inside with ((number | hyphen) | short) | suffix
  · have digit := signedDecimal_char number
    revert digit
    decide
  · revert hyphen
    decide
  · exact event.flat (shortId_subset event.id short)
  · revert suffix
    decide

theorem latestEventsName_flat : '/' ∉ latestEventsName := by decide

/-- The name of an event begins with its time. -/
theorem eventName_ne_latestEventsName (event : SyncEvent) : eventName event ≠ latestEventsName := by
  intro equal
  have filled : signedDecimal event.timestamp ≠ [] := by
    unfold signedDecimal
    split
    · exact List.cons_ne_nil _ _
    · exact Nat.toDigits_ne_nil
  obtain ⟨c, rest, number⟩ := List.exists_cons_of_ne_nil filled
  have first : c = '-' ∨ c.isDigit = true := signedDecimal_char (by rw [number]; exact List.mem_cons_self)
  have head : c = 'l' := by
    have heads := congrArg List.head? equal
    rw [eventName, number] at heads
    exact Option.some.inj heads
  subst head
  revert first
  decide

theorem activityDir_append (relationshipId name : Text) :
    activityDir relationshipId ++ name = text "/sync/activity/" ++ (relationshipId ++ '/' :: name) := by
  simp [activityDir, text]

theorem activityPath_inj {first second name other : Text} (flat : '/' ∉ name) (flat' : '/' ∉ other)
    (equal : activityDir first ++ name = activityDir second ++ other) : first = second ∧ name = other := by
  rw [activityDir_append, activityDir_append] at equal
  exact slash_append_inj flat flat' (List.append_cancel_left equal)

theorem indexPath_inj {first second : Text} (equal : indexPath first = indexPath second) : first = second :=
  (activityPath_inj latestEventsName_flat latestEventsName_flat equal).1

theorem eventPath_ne_indexPath (event : SyncEvent) (relationshipId : Text) :
    eventPath event ≠ indexPath relationshipId := by
  intro equal
  exact eventName_ne_latestEventsName event
    (activityPath_inj (eventName_flat event) latestEventsName_flat equal).2

theorem isDocument_indexPath (relationshipId : Text) : IsDocument (indexPath relationshipId) := by
  have named : text ".json" <:+ latestEventsName := by decide
  exact named.trans (List.suffix_append (activityDir relationshipId) latestEventsName)

theorem isEventName_document {directory name : Text} (named : isEventName name = true) :
    IsDocument (directory ++ name) := by
  simp only [isEventName, Bool.and_eq_true, decide_eq_true_eq] at named
  exact named.1.1.1.trans (List.suffix_append directory name)

theorem dedupeEvents_eq {seen : List Text} {events : List SyncEvent} (distinct : (events.map SyncEvent.id).Nodup)
    (apart : ∀ event ∈ events, event.id ∉ seen) : dedupeEvents seen events = events := by
  induction events generalizing seen with
  | nil => rfl
  | cons event rest ih =>
      obtain ⟨fresh, later⟩ := List.nodup_cons.mp distinct
      rw [dedupeEvents, if_neg (apart event List.mem_cons_self), ih later]
      intro other inside known
      rcases List.mem_cons.mp known with same | old
      · exact fresh (same ▸ List.mem_map_of_mem inside)
      · exact apart other (List.mem_cons_of_mem _ inside) old

theorem sortDedupeTruncate_newest {events : List SyncEvent} (distinct : (events.map SyncEvent.id).Nodup)
    (limit : Nat) : sortDedupeTruncate limit events = newest SyncEvent.key limit events := by
  have same := ((@descending_perm _ _ _ SyncEvent.key events).map SyncEvent.id).nodup_iff.mpr distinct
  rw [sortDedupeTruncate, newest, dedupeEvents_eq same]
  intro event _ known
  cases known

variable {σ : Type} (engine : StateEngine σ) {db : σ} {progress : Text → Option SyncEvent}

/-- The index that is stored, when it can be read. -/
def storedIndex (db : σ) (relationshipId : Text) : Option (List SyncEvent) :=
  (engine.file db (indexPath relationshipId)).bind SyncEvent.listOfJson

/-- What a file of the directory of a relationship holds. -/
def storedEvent (db : σ) (relationshipId name : Text) : Option SyncEvent :=
  (engine.file db (activityDir relationshipId ++ name)).bind SyncEvent.ofJson

/-- Without faults the log is a database and the events of progress. -/
def ActivityLog.quiet (db : σ) (progress : Text → Option SyncEvent) : ActivityLog σ := ⟨StateStore.quiet db, progress⟩

def putIndex (relationshipId : Text) (events : List SyncEvent) (db : σ) : σ :=
  engine.put [(indexPath relationshipId, SyncEvent.listJson events)] db

def putEvent (event : SyncEvent) (db : σ) : σ := engine.put [(eventPath event, event.json)] db

variable {engine}

theorem file_put_one (db : σ) (path other : Text) (json : Json) :
    engine.file (engine.put [(path, json)] db) other = if other = path then some json else engine.file db other := by
  have single : ([(path, json)].map Prod.fst).Nodup := List.nodup_singleton path
  rw [engine.file_put _ _ _ single, List.lookup_cons, List.lookup_nil]
  by_cases same : other = path
  · simp [same]
  · rw [if_neg same, beq_eq_false_iff_ne.mpr same]
    rfl

theorem storedIndex_putIndex (db : σ) (relationshipId other : Text) (events : List SyncEvent) :
    storedIndex engine (putIndex engine relationshipId events db) other =
      if other = relationshipId then some events else storedIndex engine db other := by
  unfold storedIndex putIndex
  rw [file_put_one]
  by_cases same : other = relationshipId
  · rw [if_pos same, if_pos (congrArg indexPath same), Option.bind_some, SyncEvent.listOfJson_listJson]
  · rw [if_neg same, if_neg fun equal => same (indexPath_inj equal)]

theorem storedIndex_putEvent (db : σ) (event : SyncEvent) (relationshipId : Text) :
    storedIndex engine (putEvent engine event db) relationshipId = storedIndex engine db relationshipId := by
  unfold storedIndex putEvent
  rw [file_put_one, if_neg (eventPath_ne_indexPath event relationshipId).symm]

/-- The files of a relationship stay when its own events and its index are not written. -/
theorem storedEvent_putIndex (db : σ) (relationshipId other : Text) (events : List SyncEvent) {name : Text}
    (flat : '/' ∉ name) (different : name ≠ latestEventsName) :
    storedEvent engine (putIndex engine relationshipId events db) other name = storedEvent engine db other name := by
  have apart : activityDir other ++ name ≠ indexPath relationshipId :=
    fun equal => different (activityPath_inj flat latestEventsName_flat equal).2
  unfold storedEvent putIndex
  rw [file_put_one, if_neg apart]

theorem storedEvent_putEvent (db : σ) (event : SyncEvent) {relationshipId name : Text} (flat : '/' ∉ name)
    (other : relationshipId ≠ event.relationshipId) :
    storedEvent engine (putEvent engine event db) relationshipId name = storedEvent engine db relationshipId name := by
  have apart : activityDir relationshipId ++ name ≠ eventPath event :=
    fun equal => other (activityPath_inj flat (eventName_flat event) equal).1
  unfold storedEvent putEvent
  rw [file_put_one, if_neg apart]

theorem readIndex_quiet (db : σ) (relationshipId : Text) :
    readIndex engine relationshipId (StateStore.quiet db) =
      (.ok (storedIndex engine db relationshipId), StateStore.quiet db) :=
  readJson_quiet engine SyncEvent.listOfJson (isDocument_indexPath relationshipId) db

theorem logEvent_progress {event : SyncEvent} (kind : event.eventType = text "progress") :
    logEvent engine event (.quiet db progress) =
      (.ok (), .quiet db (Function.update progress event.relationshipId (some event))) := by
  rw [logEvent, if_pos kind]
  rfl

theorem logEvent_durable {event : SyncEvent} (kind : event.eventType ≠ text "progress") :
    logEvent engine event (.quiet db progress) =
      (.ok (), .quiet (putIndex engine event.relationshipId
          (extendIndex event ((storedIndex engine db event.relationshipId).getD []))
          (putEvent engine event db))
        (Function.update progress event.relationshipId none)) := by
  have read := @readIndex_quiet _ engine (putEvent engine event db) event.relationshipId
  rw [storedIndex_putEvent] at read
  have updated : updateLatestEventsIndex engine event (StateStore.quiet (putEvent engine event db)) =
      (.ok (), StateStore.quiet (putIndex engine event.relationshipId
        (extendIndex event ((storedIndex engine db event.relationshipId).getD [])) (putEvent engine event db))) := by
    rw [updateLatestEventsIndex, Proc.bind_apply, read]
    exact storeJson_quiet engine _ _ _
  have stored : storeJson engine (eventPath event) event.json (StateStore.quiet db) =
      (.ok (), StateStore.quiet (putEvent engine event db)) := storeJson_quiet engine _ _ _
  rw [logEvent, if_neg kind]
  simp only [Proc.bind_apply, onState, Proc.zoom, ActivityLog.quiet, stored, updated, Proc.modify_apply,
    setProgress]

/-- The events of the files in the given order, each identifier once. -/
def collectEvents (read : Text → Option SyncEvent) (seen : List Text) : List Text → List SyncEvent
  | [] => []
  | name :: rest => match read name with
      | some event =>
          if isDurableActivityEvent event = true ∧ event.id ∉ seen then
            event :: collectEvents read (event.id :: seen) rest
          else collectEvents read seen rest
      | none => collectEvents read seen rest

theorem readEvents_quiet (db : σ) (relationshipId : Text) (seen : List Text) {names : List Text}
    (named : ∀ name ∈ names, isEventName name = true) :
    readEvents engine (activityDir relationshipId) seen names (StateStore.quiet db) =
      (.ok (collectEvents (storedEvent engine db relationshipId) seen names), StateStore.quiet db) := by
  induction names generalizing seen with
  | nil => rfl
  | cons name rest ih =>
      have read := readJson_quiet engine SyncEvent.ofJson
        (@isEventName_document (activityDir relationshipId) _ (named name List.mem_cons_self)) db
      have later : ∀ seen, readEvents engine (activityDir relationshipId) seen rest (StateStore.quiet db) =
          (.ok (collectEvents (storedEvent engine db relationshipId) seen rest), StateStore.quiet db) :=
        fun seen => ih seen fun other inside => named other (List.mem_cons_of_mem _ inside)
      rw [readEvents, Proc.bind_apply, read]
      show _ = (Except.ok (collectEvents (storedEvent engine db relationshipId) seen (name :: rest)), _)
      rw [collectEvents, storedEvent]
      cases (engine.file db (activityDir relationshipId ++ name)).bind SyncEvent.ofJson with
      | none => exact later seen
      | some event =>
          by_cases fits : isDurableActivityEvent event = true ∧ event.id ∉ seen
          · simp only [if_pos fits, Proc.bind_apply, later]
            rfl
          · simp only [if_neg fits, later]

/-- The names of the files that may hold events, the greatest first. -/
def eventEntries (engine : StateEngine σ) (db : σ) (relationshipId : Text) : List Text :=
  ((engine.listing db (activityDir relationshipId)).filter isEventName).insertionSort fun a b => b ≤ a

theorem getEvents_zero (relationshipId : Text) (log : ActivityLog σ) :
    getEvents engine relationshipId 0 log = (.ok [], log) := rfl

theorem getEvents_indexed {relationshipId : Text} {limit : Nat} (some : limit ≠ 0) {events : List SyncEvent}
    (indexed : storedIndex engine db relationshipId = .some events) :
    getEvents engine relationshipId limit (.quiet db progress) =
      (.ok (sortDedupeTruncate limit (events.filter isDurableActivityEvent ++ (progress relationshipId).toList)),
        .quiet db progress) := by
  have read := @readIndex_quiet _ engine db relationshipId
  rw [indexed] at read
  rw [getEvents, if_neg some]
  simp only [Proc.bind_apply, Proc.get_apply, onState, Proc.zoom, ActivityLog.quiet, read]
  rfl

theorem getEvents_absent {relationshipId : Text} {limit : Nat} (some : limit ≠ 0)
    (bare : storedIndex engine db relationshipId = none)
    (absent : engine.present db (activityDir relationshipId) = false) :
    getEvents engine relationshipId limit (.quiet db progress) =
      (.ok (sortDedupeTruncate limit (progress relationshipId).toList), .quiet db progress) := by
  have read := @readIndex_quiet _ engine db relationshipId
  rw [bare] at read
  rw [getEvents, if_neg some]
  simp only [Proc.bind_apply, Proc.get_apply, onState, Proc.zoom, ActivityLog.quiet, read, backfillEvents,
    pathExists_quiet, absent]
  rfl

theorem getEvents_backfilled {relationshipId : Text} {limit : Nat} (some : limit ≠ 0)
    (bare : storedIndex engine db relationshipId = none)
    (present : engine.present db (activityDir relationshipId) = true) :
    ∃ events, events = sortDedupeTruncate limit ((progress relationshipId).toList ++
        collectEvents (storedEvent engine db relationshipId) ((progress relationshipId).toList.map SyncEvent.id)
          ((eventEntries engine db relationshipId).take (limit * 2 + 10))) ∧
      getEvents engine relationshipId limit (.quiet db progress) =
        (.ok events, .quiet (putIndex engine relationshipId events db) progress) := by
  refine ⟨_, rfl, ?_⟩
  have read := @readIndex_quiet _ engine db relationshipId
  rw [bare] at read
  have named : ∀ name ∈ (eventEntries engine db relationshipId).take (limit * 2 + 10),
      isEventName name = true := by
    intro name inside
    have listed := List.mem_of_mem_take inside
    rw [eventEntries, List.mem_insertionSort, List.mem_filter] at listed
    exact listed.2
  have found := @readEvents_quiet _ engine db relationshipId
    ((progress relationshipId).toList.map SyncEvent.id) _ named
  rw [getEvents, if_neg some]
  simp only [Proc.bind_apply, Proc.get_apply, onState, Proc.zoom, ActivityLog.quiet, read, backfillEvents,
    pathExists_quiet, present]
  simp only [eventEntries] at found
  simp only [if_true, Proc.bind_apply, listDirectory_quiet, found]
  rfl

end AeordbSync

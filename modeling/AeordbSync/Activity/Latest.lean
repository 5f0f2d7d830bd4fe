import AeordbSync.Activity.History

namespace AeordbSync
open Characters Effect StateStore Newest

/-- The newest durable events of the relationship and its event of progress, in descending order. -/
def latestActivity (limit : Nat) (relationshipId : Text) (events : List SyncEvent) : List SyncEvent :=
  newest SyncEvent.key limit (newest SyncEvent.key latestEventsLimit (durableEvents relationshipId events) ++
    (latestProgress relationshipId events).toList)

variable {σ : Type} (engine : StateEngine σ)

/-- No relationship has an event file or an index. -/
def NoActivity (db : σ) : Prop :=
  ∀ relationshipId name, isEventName name = true ∨ name = latestEventsName →
    engine.file db (activityDir relationshipId ++ name) = none

/-- The log of a client that has just started. -/
def startedLog (db : σ) : ActivityLog σ := .quiet db fun _ => none

/-- The durable events of a relationship that are stored: each has its file, and every event of an index has one. -/
structure StoredHistory (db : σ) (relationshipId : Text) (history : List SyncEvent) : Prop where
  distinct : (history.map SyncEvent.id).Nodup
  durable : ∀ event ∈ history, isDurableActivityEvent event = true
  filed : ∀ event ∈ history, storedEvent engine db relationshipId (eventName event) = some event
  complete : ∀ name, '/' ∉ name → isEventName name = true → ∀ event,
    storedEvent engine db relationshipId name = some event → isDurableActivityEvent event = true → event ∈ history
  indexed : ∀ events, storedIndex engine db relationshipId = some events →
    ((events.filter isDurableActivityEvent).map SyncEvent.id).Nodup ∧
      ∀ event ∈ events.filter isDurableActivityEvent, event ∈ history

/-- Reads between the calls change no result, and the newest stored and logged events are read. -/
def ReadsKeepHistory (db : σ) (relationshipId : Text) (history : List SyncEvent) : Prop :=
  ∀ calls, ((history ++ loggedEvents calls).map SyncEvent.id).Nodup →
    (∀ others, loggedEvents others = loggedEvents calls → ∀ limit,
      (getEvents engine relationshipId limit ((startedLog db).after engine others)).1 =
        (getEvents engine relationshipId limit ((startedLog db).after engine calls)).1) ∧
    ∀ limit ≤ latestEventsLimit, latestProgress relationshipId (loggedEvents calls) = none →
      (getEvents engine relationshipId limit ((startedLog db).after engine calls)).1 =
        .ok (newest SyncEvent.key limit (history ++ durableEvents relationshipId (loggedEvents calls)))

/-- There is nothing to keep, or the index has the newest events of the history. -/
def IndexCovers (db : σ) (relationshipId : Text) (history : List SyncEvent) : Prop :=
  match storedIndex engine db relationshipId with
  | none => history = []
  | some events => newest SyncEvent.key latestEventsLimit (events.filter isDurableActivityEvent) =
      newest SyncEvent.key latestEventsLimit history

section

variable {engine} {db : σ} {relationshipId : Text} {history : List SyncEvent}

theorem NoActivity.recorded (empty : NoActivity engine db) (relationshipId : Text) :
    Recorded engine relationshipId [] [] db fun _ => none := by
  have bare : storedIndex engine db relationshipId = none := by
    rw [storedIndex, indexPath, empty relationshipId latestEventsName (.inr rfl)]
    rfl
  refine ⟨?_, ?_, rfl⟩
  · rw [bare]
    rfl
  · intro _ name _ named event held
    rw [storedEvent, empty relationshipId name (.inl named)] at held
    cases held

theorem newest_subperm {limit : Nat} {events : List SyncEvent} :
    (newest SyncEvent.key limit events).Subperm events :=
  (newest_sublist limit events).subperm.trans (descending_perm events).subperm

/-- From an empty log, every read returns the newest events, and only those of its relationship. -/
theorem getEvents_latest (empty : NoActivity engine db) (calls : List ActivityCall)
    (distinct : ((loggedEvents calls).map SyncEvent.id).Nodup) (relationshipId : Text) (limit : Nat) :
    (getEvents engine relationshipId limit ((startedLog db).after engine calls)).1 =
        .ok (latestActivity limit relationshipId (loggedEvents calls)) ∧
      (latestActivity limit relationshipId (loggedEvents calls)).Pairwise (fun a b => b.key < a.key) ∧
      ∀ event ∈ latestActivity limit relationshipId (loggedEvents calls), event.relationshipId = relationshipId := by
  obtain ⟨next, progress, reached, recorded⟩ := (empty.recorded relationshipId).after rfl calls distinct
  have indexed : indexAfter [] (durableEvents relationshipId (loggedEvents calls)) =
      newest SyncEvent.key latestEventsLimit (durableEvents relationshipId (loggedEvents calls)) := by
    unfold indexAfter
    split
    next nothing =>
      rw [nothing]
      rfl
    · rw [List.nil_append]
  have result := recorded.result distinct limit
  rw [indexed] at result
  refine ⟨?_, ?_, ?_⟩
  · rw [startedLog, reached]
    exact result
  · apply pairwise_newest
    apply SyncEvent.key_injOn
    apply nodup_of_subperm _ distinct
    apply ((List.subperm_append_right _).mpr newest_subperm).trans
    exact latest_subperm distinct
  · intro event inside
    rcases List.mem_append.mp (mem_of_mem_newest inside) with durable | latest
    · have fits := (List.mem_filter.mp (mem_of_mem_newest durable)).2
      rw [Bool.and_eq_true, decide_eq_true_eq] at fits
      exact fits.1
    · have last := Option.filter_eq_some_iff.mp (Option.mem_toList.mp latest)
      have own := (List.mem_filter.mp (List.mem_of_getLast? last.1)).2
      exact decide_eq_true_eq.mp own

/-- The durable events of the stored index. -/
def indexedEvents (engine : StateEngine σ) (db : σ) (relationshipId : Text) : List SyncEvent :=
  ((storedIndex engine db relationshipId).getD []).filter isDurableActivityEvent

theorem StoredHistory.indexed_subperm (stored : StoredHistory engine db relationshipId history) :
    (indexedEvents engine db relationshipId).Subperm history := by
  unfold indexedEvents
  cases indexed : storedIndex engine db relationshipId with
  | none => exact List.nil_subperm
  | some events =>
      obtain ⟨distinct, known⟩ := stored.indexed events indexed
      exact List.subperm_of_subset distinct.of_map known

theorem indexedEvents_durable :
    (indexedEvents engine db relationshipId).filter isDurableActivityEvent = indexedEvents engine db relationshipId := by
  rw [indexedEvents, List.filter_filter]
  simp only [Bool.and_self]

theorem StoredHistory.recorded (stored : StoredHistory engine db relationshipId history)
    (covers : IndexCovers engine db relationshipId history) :
    Recorded engine relationshipId (indexedEvents engine db relationshipId) [] db fun _ => none := by
  refine ⟨rfl, ?_, rfl⟩
  intro bare name flat named event held
  rw [IndexCovers, bare] at covers
  cases durable : isDurableActivityEvent event with
  | false => rfl
  | true =>
      have known := stored.complete name flat named event held durable
      rw [covers] at known
      cases known

theorem indexCovers_newest (covers : IndexCovers engine db relationshipId history) :
    newest SyncEvent.key latestEventsLimit (indexedEvents engine db relationshipId) =
      newest SyncEvent.key latestEventsLimit history := by
  unfold IndexCovers at covers
  unfold indexedEvents
  split at covers
  next bare =>
    rw [bare, covers]
    rfl
  next events indexed =>
    rw [indexed]
    exact covers

/-- The newest of the events that an index makes of a history are the newest of the history. -/
theorem newest_indexAfter {base durable : List SyncEvent} {limit : Nat} (few : limit ≤ latestEventsLimit)
    (distinct : ((history ++ durable).map SyncEvent.id).Nodup) (within : base.Subperm history)
    (covers : newest SyncEvent.key latestEventsLimit base = newest SyncEvent.key latestEventsLimit history) :
    newest SyncEvent.key limit (indexAfter base durable) = newest SyncEvent.key limit (history ++ durable) := by
  have whole := SyncEvent.key_injOn distinct
  have part : ((base ++ durable).map SyncEvent.key).Nodup :=
    SyncEvent.key_injOn (nodup_of_subperm ((List.subperm_append_right durable).mpr within) distinct)
  have same : newest SyncEvent.key latestEventsLimit (base ++ durable) =
      newest SyncEvent.key latestEventsLimit (history ++ durable) := by
    rw [← newest_append part, ← newest_append whole, covers]
  rw [← newest_newest whole few, ← same]
  unfold indexAfter
  split
  next nothing =>
    rw [nothing, List.append_nil] at part ⊢
    rw [newest_newest part few]
  · rfl

/-- Some identifier is not in use. -/
theorem exists_fresh_id (used : List Text) : ∃ id : Text, '/' ∉ id ∧ id ∉ used := by
  have bounded : ∃ bound, ∀ id ∈ used, id.length < bound := by
    induction used with
    | nil => exact ⟨0, fun _ inside => nomatch inside⟩
    | cons first rest ih =>
        obtain ⟨bound, below⟩ := ih
        refine ⟨max bound (first.length + 1), ?_⟩
        intro id inside
        rcases List.mem_cons.mp inside with rfl | later
        · omega
        · have less := below id later
          omega
  obtain ⟨bound, below⟩ := bounded
  refine ⟨List.replicate bound 'a', ?_, ?_⟩
  · intro inside
    have equal := List.eq_of_mem_replicate inside
    revert equal
    decide
  · intro inside
    have less := below _ inside
    rw [List.length_replicate] at less
    omega

/-- An event that is logged without an index becomes the whole index. -/
theorem getEvents_afterFirst (bare : storedIndex engine db relationshipId = none) {event : SyncEvent}
    (own : event.relationshipId = relationshipId) (durable : isDurableActivityEvent event = true) (limit : Nat)
    (some : limit ≠ 0) :
    (getEvents engine relationshipId limit ((startedLog db).after engine [.logEvent event])).1 =
      .ok (newest SyncEvent.key limit [event]) := by
  have single : (([event] : List SyncEvent).map SyncEvent.id).Nodup := List.nodup_singleton _
  have extended : extendIndex event [] = [event] := by
    rw [extendIndex, List.nil_append, List.filter_singleton, durable]
    exact sortDedupeTruncate_newest single latestEventsLimit
  have logged : (startedLog db).after engine [.logEvent event] =
      .quiet (putIndex engine relationshipId [event] (putEvent engine event db))
        (Function.update (fun _ => none) relationshipId none) := by
    have done := @logEvent_durable _ engine db (fun _ => none) _ (isDurable_iff.mp durable)
    rw [own, bare, Option.getD_none, extended] at done
    exact congrArg Prod.snd done
  have indexed : storedIndex engine (putIndex engine relationshipId [event] (putEvent engine event db)) relationshipId =
      .some [event] := by
    rw [storedIndex_putIndex, if_pos rfl]
  rw [logged, getEvents_indexed some indexed, Function.update_self, List.filter_singleton, durable]
  exact congrArg Except.ok (sortDedupeTruncate_newest single limit)

/-- Reads change nothing and lose nothing exactly when the index has the newest events of the history, or
there is no history. -/
theorem readsKeepHistory_iff (stored : StoredHistory engine db relationshipId history) :
    ReadsKeepHistory engine db relationshipId history ↔ IndexCovers engine db relationshipId history := by
  constructor
  · intro keeps
    unfold IndexCovers
    split
    next bare =>
      by_contra filled
      obtain ⟨id, flat, fresh⟩ := exists_fresh_id (history.map SyncEvent.id)
      let event : SyncEvent := ⟨id, relationshipId, [], text "push", [], 0, 0, 0, [], 0, flat⟩
      have distinct : ((history ++ [event]).map SyncEvent.id).Nodup := by
        have ids : [event].map SyncEvent.id = [id] := rfl
        rw [List.map_append, ids, ← List.concat_eq_append]
        exact stored.distinct.concat fresh
      have own : durableEvents relationshipId [event] = [event] := by
        simp [durableEvents, isDurableActivityEvent, event, text]
      have none : latestProgress relationshipId [event] = none := by
        exact latestProgress_own rfl []
      have read := (keeps [.logEvent event] distinct).2 2 (by decide) none
      rw [getEvents_afterFirst bare rfl rfl 2 (by decide)] at read
      have lengths := congrArg List.length (Except.ok.inj read)
      rw [length_newest, length_newest] at lengths
      have positive := List.length_pos_iff.mpr filled
      have counted : (history ++ durableEvents relationshipId [event]).length = history.length + 1 := by
        rw [own, List.length_append, List.length_singleton]
      change min 2 1 = min 2 (history ++ durableEvents relationshipId [event]).length at lengths
      omega
    next events indexed =>
      have unlogged : ((history ++ loggedEvents []).map SyncEvent.id).Nodup := by
        rw [loggedEvents, List.filterMap_nil, List.append_nil]
        exact stored.distinct
      have read := (keeps [] unlogged).2 latestEventsLimit le_rfl rfl
      obtain ⟨distinct, -⟩ := stored.indexed events indexed
      have nothing : durableEvents relationshipId (loggedEvents []) = [] := rfl
      rw [nothing, List.append_nil] at read
      have direct : (getEvents engine relationshipId latestEventsLimit ((startedLog db).after engine [])).1 =
          .ok (newest SyncEvent.key latestEventsLimit (events.filter isDurableActivityEvent)) := by
        rw [← sortDedupeTruncate_newest distinct]
        show (getEvents engine relationshipId latestEventsLimit (.quiet db fun _ => none)).1 = _
        rw [getEvents_indexed (by decide) indexed, Option.toList_none, List.append_nil]
      rw [direct] at read
      exact Except.ok.inj read
  · intro covers calls distinct
    have within := stored.indexed_subperm
    have unique : ∀ others, loggedEvents others = loggedEvents calls →
        ((indexedEvents engine db relationshipId ++ loggedEvents others).map SyncEvent.id).Nodup := by
      intro others same
      rw [same]
      exact nodup_of_subperm ((List.subperm_append_right _).mpr within) distinct
    have result : ∀ others, loggedEvents others = loggedEvents calls → ∀ limit,
        (getEvents engine relationshipId limit ((startedLog db).after engine others)).1 =
          .ok (newest SyncEvent.key limit (indexAfter (indexedEvents engine db relationshipId)
            (durableEvents relationshipId (loggedEvents calls)) ++
              (latestProgress relationshipId (loggedEvents calls)).toList)) := by
      intro others same limit
      obtain ⟨next, progress, reached, recorded⟩ :=
        (stored.recorded covers).after indexedEvents_durable others (unique others same)
      rw [startedLog, reached, recorded.result (unique others same) limit, same]
    constructor
    · intro others same limit
      rw [result others same limit, result calls rfl limit]
    · intro limit few none
      have fits : ((history ++ durableEvents relationshipId (loggedEvents calls)).map SyncEvent.id).Nodup := by
        apply nodup_of_subperm _ distinct
        exact (List.subperm_append_left history).mpr List.filter_sublist.subperm
      rw [result calls rfl limit, none, Option.toList_none, List.append_nil,
        newest_indexAfter few fits within (indexCovers_newest covers)]

end

namespace ActivitySample

def event (id kind : String) (timestamp : Int) (flat : '/' ∉ text id) : SyncEvent :=
  ⟨text id, text "docs", text "Documents", text kind, [], 1, 0, 0, [], timestamp, flat⟩

def pushed : SyncEvent := event "9d1c0a52-6b07" "push" 1700000000000 (by decide)

def pulled : SyncEvent := event "41f6e7b3-02ce" "pull" 1700000060000 (by decide)

def calls : List ActivityCall :=
  [.logEvent pulled, .getEvents (text "docs") 5, .logEvent pushed,
    .logEvent (event "c2d8b9f0-77aa" "progress" 1700000030000 (by decide))]

/-- A store of an older client: one file for each event and no index. -/
def legacy : MemoryState :=
  putEvent MemoryState.engine pulled (putEvent MemoryState.engine pushed ∅)

theorem storedEvent_legacy {name : Text} {found : SyncEvent}
    (held : storedEvent MemoryState.engine legacy (text "docs") name = some found) :
    found = pulled ∨ found = pushed := by
  unfold storedEvent legacy putEvent at held
  rw [file_put_one, file_put_one] at held
  split at held
  · rw [Option.bind_some, SyncEvent.ofJson_json] at held
    exact .inl (Option.some.inj held).symm
  · split at held
    · rw [Option.bind_some, SyncEvent.ofJson_json] at held
      exact .inr (Option.some.inj held).symm
    · cases held

theorem storedIndex_legacy : storedIndex MemoryState.engine legacy (text "docs") = none := by
  unfold legacy
  rw [storedIndex_putEvent, storedIndex_putEvent]
  rfl

theorem storedHistory_legacy : StoredHistory MemoryState.engine legacy (text "docs") [pushed, pulled] := by
  refine ⟨by decide, by decide, ?_, ?_, ?_⟩
  · intro event inside
    rcases List.mem_cons.mp inside with rfl | later
    · decide +kernel
    · obtain rfl := List.mem_singleton.mp later
      decide +kernel
  · intro name _ _ found held _
    rcases storedEvent_legacy held with rfl | rfl
    · exact List.mem_cons_of_mem _ List.mem_cons_self
    · exact List.mem_cons_self
  · intro events indexed
    rw [storedIndex_legacy] at indexed
    cases indexed

def readIds (calls : List ActivityCall) (limit : Nat) : List Text :=
  match (getEvents MemoryState.engine (text "docs") limit ((startedLog legacy).after MemoryState.engine calls)).1 with
  | .ok events => events.map SyncEvent.id
  | .error _ => []

end ActivitySample

open ActivitySample in
/-- The events are read in descending order, whatever was read and logged before. -/
theorem getEvents_latest_sample :
    (getEvents MemoryState.engine (text "docs") 2 ((startedLog (∅ : MemoryState)).after MemoryState.engine calls)).1 =
      .ok (latestActivity 2 (text "docs") (loggedEvents calls)) := by
  have empty : NoActivity MemoryState.engine (∅ : MemoryState) := fun _ _ _ => rfl
  exact (getEvents_latest empty calls (by decide) (text "docs") 2).1

open ActivitySample in
/-- A read of one event hides the older event from every later read. -/
theorem readsKeepHistory_legacy : ¬ ∀ (db : MemoryState) relationshipId history,
    StoredHistory MemoryState.engine db relationshipId history →
      ReadsKeepHistory MemoryState.engine db relationshipId history := by
  intro all
  have keeps := all legacy (text "docs") [pushed, pulled] storedHistory_legacy
  have same := (keeps [] (by decide)).1 [.getEvents (text "docs") 1] rfl 2
  have hidden : readIds [.getEvents (text "docs") 1] 2 = readIds [] 2 := by
    unfold readIds
    rw [same]
  revert hidden
  decide +kernel

open ActivitySample in
theorem readsKeepHistory_iff_legacy :
    ReadsKeepHistory MemoryState.engine legacy (text "docs") [pushed, pulled] ↔
      IndexCovers MemoryState.engine legacy (text "docs") [pushed, pulled] :=
  readsKeepHistory_iff storedHistory_legacy

end AeordbSync

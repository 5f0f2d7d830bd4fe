import AeordbSync.Activity.Rules
import AeordbSync.State.Memory

namespace AeordbSync
open Characters Effect StateStore Newest

def ActivityCall.event? : ActivityCall → Option SyncEvent
  | .logEvent event => some event
  | .getEvents _ _ => none

def loggedEvents (calls : List ActivityCall) : List SyncEvent := calls.filterMap ActivityCall.event?

def durableEvents (relationshipId : Text) (events : List SyncEvent) : List SyncEvent :=
  events.filter fun event => decide (event.relationshipId = relationshipId) && isDurableActivityEvent event

/-- The last event of the relationship, if it is one of progress. -/
def latestProgress (relationshipId : Text) (events : List SyncEvent) : Option SyncEvent :=
  ((events.filter fun event => event.relationshipId = relationshipId).getLast?).filter
    fun event => !isDurableActivityEvent event

/-- The durable events of an index after more of them were logged. -/
def indexAfter (base durable : List SyncEvent) : List SyncEvent :=
  if durable = [] then base else newest SyncEvent.key latestEventsLimit (base ++ durable)

theorem loggedEvents_append (calls more : List ActivityCall) :
    loggedEvents (calls ++ more) = loggedEvents calls ++ loggedEvents more := List.filterMap_append

theorem durableEvents_append (relationshipId : Text) (events more : List SyncEvent) :
    durableEvents relationshipId (events ++ more) =
      durableEvents relationshipId events ++ durableEvents relationshipId more := List.filter_append _ _

theorem durable_of_mem {relationshipId : Text} {events : List SyncEvent} {event : SyncEvent}
    (inside : event ∈ durableEvents relationshipId events) : isDurableActivityEvent event = true := by
  have fits := (List.mem_filter.mp inside).2
  rw [Bool.and_eq_true] at fits
  exact fits.2

theorem filter_durableEvents (relationshipId : Text) (events : List SyncEvent) :
    (durableEvents relationshipId events).filter isDurableActivityEvent = durableEvents relationshipId events :=
  List.filter_eq_self.mpr fun _ inside => durable_of_mem inside

/-- An event of another relationship changes nothing for this one. -/
theorem latestProgress_other {relationshipId : Text} {event : SyncEvent} (other : event.relationshipId ≠ relationshipId)
    (events : List SyncEvent) : latestProgress relationshipId (events ++ [event]) = latestProgress relationshipId events := by
  simp [latestProgress, List.filter_append, other]

theorem latestProgress_own {relationshipId : Text} {event : SyncEvent} (own : event.relationshipId = relationshipId)
    (events : List SyncEvent) : latestProgress relationshipId (events ++ [event]) =
      if isDurableActivityEvent event = true then none else some event := by
  simp only [latestProgress, List.filter_append, List.filter_singleton, own, decide_true, cond_true,
    List.getLast?_concat]
  cases durable : isDurableActivityEvent event <;> simp [Option.filter, durable]

theorem progress_of_latest {relationshipId : Text} {events : List SyncEvent} {event : SyncEvent}
    (latest : latestProgress relationshipId events = some event) :
    event ∈ events ∧ isDurableActivityEvent event = false := by
  obtain ⟨last, kind⟩ := Option.filter_eq_some_iff.mp latest
  refine ⟨(List.mem_filter.mp (List.mem_of_getLast? last)).1, ?_⟩
  simpa using kind

section

variable {σ : Type} {engine : StateEngine σ} {relationshipId : Text} {base : List SyncEvent}

/-- The durable events of the index are those that the logged events make of the first ones. While there is
no index, no file holds a durable event. -/
structure Recorded (engine : StateEngine σ) (relationshipId : Text) (base events : List SyncEvent) (db : σ)
    (progress : Text → Option SyncEvent) : Prop where
  index : ((storedIndex engine db relationshipId).getD []).filter isDurableActivityEvent =
    indexAfter base (durableEvents relationshipId events)
  files : storedIndex engine db relationshipId = none → ∀ name, '/' ∉ name → isEventName name = true →
    ∀ event, storedEvent engine db relationshipId name = some event → isDurableActivityEvent event = false
  progress : progress relationshipId = latestProgress relationshipId events

variable {events : List SyncEvent} {db : σ} {progress : Text → Option SyncEvent}

theorem indexAfter_eq_nil {durable : List SyncEvent} (empty : indexAfter base durable = []) :
    base = [] ∧ durable = [] := by
  unfold indexAfter at empty
  split at empty
  next none => exact ⟨empty, none⟩
  next filled =>
    have length := @length_newest _ _ _ SyncEvent.key latestEventsLimit (base ++ durable)
    rw [empty, List.length_nil, List.length_append, latestEventsLimit] at length
    have positive := List.length_pos_iff.mpr filled
    omega

/-- Without an index nothing durable has been logged. -/
theorem Recorded.bare (recorded : Recorded engine relationshipId base events db progress)
    (none : storedIndex engine db relationshipId = none) :
    base = [] ∧ durableEvents relationshipId events = [] := by
  apply indexAfter_eq_nil
  rw [← recorded.index, none]
  rfl

theorem indexAfter_extend {durable : List SyncEvent} {event : SyncEvent}
    (distinct : ((base ++ (durable ++ [event])).map SyncEvent.id).Nodup) :
    newest SyncEvent.key latestEventsLimit (indexAfter base durable ++ [event]) =
      indexAfter base (durable ++ [event]) := by
  have more : durable ++ [event] ≠ [] := by simp
  rw [indexAfter, indexAfter, if_neg more]
  split
  next empty =>
    subst empty
    rfl
  next filled =>
    rw [← List.append_assoc] at distinct ⊢
    exact newest_append (SyncEvent.key_injOn distinct)

theorem indexAfter_subperm {durable : List SyncEvent} : (indexAfter base durable).Subperm (base ++ durable) := by
  unfold indexAfter
  split
  next empty => rw [empty, List.append_nil]
  next filled =>
    exact (newest_sublist latestEventsLimit (base ++ durable)).subperm.trans (descending_perm _).subperm

/-- The identifiers of a part are distinct where those of the whole are. -/
theorem nodup_of_subperm {part whole : List SyncEvent} (within : part.Subperm whole)
    (distinct : (whole.map SyncEvent.id).Nodup) : (part.map SyncEvent.id).Nodup := by
  obtain ⟨same, perm, sub⟩ := within
  exact (perm.map SyncEvent.id).nodup_iff.mp (distinct.sublist (sub.map SyncEvent.id))

theorem indexAfter_durable {durable : List SyncEvent} (kept : base.filter isDurableActivityEvent = base)
    (all : durable.filter isDurableActivityEvent = durable) :
    (indexAfter base durable).filter isDurableActivityEvent = indexAfter base durable := by
  rw [List.filter_eq_self]
  intro event inside
  rcases List.mem_append.mp (indexAfter_subperm.subset inside) with old | new
  · exact List.filter_eq_self.mp kept event old
  · exact List.filter_eq_self.mp all event new

theorem durableEvents_own {event : SyncEvent} (own : event.relationshipId = relationshipId)
    (durable : isDurableActivityEvent event = true) (events : List SyncEvent) :
    durableEvents relationshipId (events ++ [event]) = durableEvents relationshipId events ++ [event] := by
  rw [durableEvents_append]
  congr 1
  simp [durableEvents, own, durable]

theorem durableEvents_skip {event : SyncEvent}
    (skipped : event.relationshipId ≠ relationshipId ∨ isDurableActivityEvent event = false)
    (events : List SyncEvent) :
    durableEvents relationshipId (events ++ [event]) = durableEvents relationshipId events := by
  rw [durableEvents_append]
  rcases skipped with other | progress
  · simp [durableEvents, other]
  · simp [durableEvents, progress]

theorem isDurable_iff {event : SyncEvent} :
    isDurableActivityEvent event = true ↔ event.eventType ≠ text "progress" := decide_eq_true_iff

/-- Progress is only kept in memory. -/
theorem Recorded.logProgress (recorded : Recorded engine relationshipId base events db progress) {event : SyncEvent}
    (kind : event.eventType = text "progress") : Recorded engine relationshipId base (events ++ [event]) db
      (Function.update progress event.relationshipId (some event)) := by
  have passing : isDurableActivityEvent event = false := by simp [isDurableActivityEvent, kind]
  refine ⟨?_, recorded.files, ?_⟩
  · rw [durableEvents_skip (.inr passing)]
    exact recorded.index
  · by_cases own : event.relationshipId = relationshipId
    · rw [latestProgress_own own, passing, ← own, Function.update_self]
      rfl
    · rw [latestProgress_other own, Function.update_of_ne (Ne.symm own)]
      exact recorded.progress

/-- A durable event extends the index of its relationship. -/
theorem Recorded.logDurable (recorded : Recorded engine relationshipId base events db progress) {event : SyncEvent}
    (durable : isDurableActivityEvent event = true) (kept : base.filter isDurableActivityEvent = base)
    (distinct : ((base ++ durableEvents relationshipId (events ++ [event])).map SyncEvent.id).Nodup) :
    Recorded engine relationshipId base (events ++ [event])
      (putIndex engine event.relationshipId
        (extendIndex event ((storedIndex engine db event.relationshipId).getD [])) (putEvent engine event db))
      (Function.update progress event.relationshipId none) := by
  by_cases own : event.relationshipId = relationshipId
  · rw [durableEvents_own own durable] at distinct
    have all : (durableEvents relationshipId events ++ [event]).filter isDurableActivityEvent =
        durableEvents relationshipId events ++ [event] := by
      rw [List.filter_append, filter_durableEvents, List.filter_singleton, durable]
      rfl
    have extended : extendIndex event ((storedIndex engine db relationshipId).getD []) =
        indexAfter base (durableEvents relationshipId events ++ [event]) := by
      have unique : ((indexAfter base (durableEvents relationshipId events) ++ [event]).map SyncEvent.id).Nodup := by
        apply nodup_of_subperm _ distinct
        rw [← List.append_assoc]
        exact (List.subperm_append_right [event]).mpr indexAfter_subperm
      rw [extendIndex, List.filter_append, List.filter_singleton, durable, recorded.index]
      show sortDedupeTruncate latestEventsLimit (_ ++ [event]) = _
      rw [sortDedupeTruncate_newest unique, indexAfter_extend distinct]
    have stored : storedIndex engine (putIndex engine event.relationshipId
        (extendIndex event ((storedIndex engine db event.relationshipId).getD [])) (putEvent engine event db))
          relationshipId = some (indexAfter base (durableEvents relationshipId events ++ [event])) := by
      rw [storedIndex_putIndex, if_pos own.symm, own, extended]
    refine ⟨?_, ?_, ?_⟩
    · rw [stored, durableEvents_own own durable]
      exact indexAfter_durable kept all
    · intro bare
      rw [stored] at bare
      cases bare
    · rw [latestProgress_own own, if_pos durable, ← own, Function.update_self]
  · have other := Ne.symm own
    refine ⟨?_, ?_, ?_⟩
    · rw [durableEvents_skip (.inl own), storedIndex_putIndex, if_neg other, storedIndex_putEvent]
      exact recorded.index
    · intro bare name flat named found holds
      rw [storedIndex_putIndex, if_neg other, storedIndex_putEvent] at bare
      have different : name ≠ latestEventsName := by
        rintro rfl
        revert named
        decide
      rw [storedEvent_putIndex _ _ _ _ flat different, storedEvent_putEvent _ _ flat other] at holds
      exact recorded.files bare name flat named found holds
    · rw [latestProgress_other own, Function.update_of_ne other]
      exact recorded.progress

theorem mem_collectEvents {read : Text → Option SyncEvent} {seen names : List Text} {event : SyncEvent}
    (inside : event ∈ collectEvents read seen names) :
    isDurableActivityEvent event = true ∧ ∃ name ∈ names, read name = some event := by
  induction names generalizing seen with
  | nil => cases inside
  | cons name rest ih =>
      have later : ∀ seen, event ∈ collectEvents read seen rest →
          isDurableActivityEvent event = true ∧ ∃ other ∈ name :: rest, read other = some event := by
        intro seen found
        obtain ⟨durable, other, listed, held⟩ := ih found
        exact ⟨durable, other, List.mem_cons_of_mem _ listed, held⟩
      simp only [collectEvents] at inside
      split at inside
      next found held =>
        split at inside
        next fits =>
          rcases List.mem_cons.mp inside with rfl | old
          · exact ⟨fits.1, name, List.mem_cons_self, held⟩
          · exact later _ old
        · exact later _ inside
      · exact later _ inside

theorem mem_eventEntries {name : Text} (listed : name ∈ eventEntries engine db relationshipId) :
    '/' ∉ name ∧ isEventName name = true := by
  rw [eventEntries, List.mem_insertionSort, List.mem_filter] at listed
  exact ⟨engine.slash_notMem_listing _ _ name listed.1, listed.2⟩

/-- While there is no index the files give no event. -/
theorem Recorded.collect (recorded : Recorded engine relationshipId base events db progress)
    (bare : storedIndex engine db relationshipId = none) (seen : List Text) (count : Nat) :
    collectEvents (storedEvent engine db relationshipId) seen
      ((eventEntries engine db relationshipId).take count) = [] := by
  rw [List.eq_nil_iff_forall_not_mem]
  intro event inside
  obtain ⟨durable, name, listed, held⟩ := mem_collectEvents inside
  obtain ⟨flat, named⟩ := mem_eventEntries (List.mem_of_mem_take listed)
  have passing := recorded.files bare name flat named event held
  rw [durable] at passing
  cases passing

theorem Recorded.progress_durable (recorded : Recorded engine relationshipId base events db progress) :
    (progress relationshipId).toList.filter isDurableActivityEvent = [] := by
  rw [recorded.progress, List.filter_eq_nil_iff]
  intro event inside
  rw [(progress_of_latest (Option.mem_toList.mp inside)).2]
  exact Bool.false_ne_true

theorem mem_dedupeEvents {seen : List Text} {all : List SyncEvent} {event : SyncEvent}
    (inside : event ∈ dedupeEvents seen all) : event ∈ all := by
  induction all generalizing seen with
  | nil => cases inside
  | cons first rest ih =>
      simp only [dedupeEvents] at inside
      split at inside
      · exact List.mem_cons_of_mem _ (ih inside)
      · rcases List.mem_cons.mp inside with rfl | later
        · exact List.mem_cons_self
        · exact List.mem_cons_of_mem _ (ih later)

theorem mem_sortDedupeTruncate {limit : Nat} {all : List SyncEvent} {event : SyncEvent}
    (inside : event ∈ sortDedupeTruncate limit all) : event ∈ all :=
  mem_descending.mp (mem_dedupeEvents (List.mem_of_mem_take inside))

/-- An index of events of progress is an index without durable events. -/
theorem Recorded.backfill (recorded : Recorded engine relationshipId base events db progress)
    (bare : storedIndex engine db relationshipId = none) (limit : Nat) :
    Recorded engine relationshipId base events
      (putIndex engine relationshipId (sortDedupeTruncate limit (progress relationshipId).toList) db) progress := by
  have stored : storedIndex engine
      (putIndex engine relationshipId (sortDedupeTruncate limit (progress relationshipId).toList) db) relationshipId =
        some (sortDedupeTruncate limit (progress relationshipId).toList) := by
    rw [storedIndex_putIndex, if_pos rfl]
  refine ⟨?_, ?_, recorded.progress⟩
  · obtain ⟨rfl, nothing⟩ := recorded.bare bare
    rw [stored, nothing]
    show _ = ([] : List SyncEvent)
    rw [List.filter_eq_nil_iff]
    intro event inside
    exact List.filter_eq_nil_iff.mp recorded.progress_durable event (mem_sortDedupeTruncate inside)
  · intro none
    rw [stored] at none
    cases none

/-- The index of another relationship does not matter. -/
theorem Recorded.putIndex (recorded : Recorded engine relationshipId base events db progress) {other : Text}
    (different : relationshipId ≠ other) (indexed : List SyncEvent) :
    Recorded engine relationshipId base events (putIndex engine other indexed db) progress := by
  refine ⟨?_, ?_, recorded.progress⟩
  · rw [storedIndex_putIndex, if_neg different]
    exact recorded.index
  · intro bare name flat named found holds
    rw [storedIndex_putIndex, if_neg different] at bare
    have unlike : name ≠ latestEventsName := by
      rintro rfl
      revert named
      decide
    rw [storedEvent_putIndex _ _ _ _ flat unlike] at holds
    exact recorded.files bare name flat named found holds

/-- Reading does not change what is recorded. -/
theorem Recorded.getEvents (recorded : Recorded engine relationshipId base events db progress) (other : Text)
    (limit : Nat) : ∃ next, (getEvents engine other limit (.quiet db progress)).2 = .quiet next progress ∧
      Recorded engine relationshipId base events next progress := by
  by_cases nothing : limit = 0
  · exact ⟨db, by rw [nothing, getEvents_zero], recorded⟩
  cases indexed : storedIndex engine db other with
  | some found => exact ⟨db, by rw [getEvents_indexed nothing indexed], recorded⟩
  | none =>
      cases present : engine.present db (activityDir other) with
      | false => exact ⟨db, by rw [getEvents_absent nothing indexed present], recorded⟩
      | true =>
          obtain ⟨filled, equal, done⟩ := @getEvents_backfilled _ _ _ progress _ _ nothing indexed present
          refine ⟨_, by rw [done], ?_⟩
          by_cases own : relationshipId = other
          · subst own
            rw [equal, recorded.collect indexed, List.append_nil]
            exact recorded.backfill indexed limit
          · exact recorded.putIndex own filled

/-- The durable events of the relationship and its event of progress are among the events. -/
theorem latest_subperm (distinct : (events.map SyncEvent.id).Nodup) :
    (durableEvents relationshipId events ++ (latestProgress relationshipId events).toList).Subperm events := by
  have nodup : events.Nodup := distinct.of_map
  apply List.subperm_of_subset
  · rw [List.nodup_append]
    refine ⟨nodup.filter _, ?_, ?_⟩
    · cases latestProgress relationshipId events with
      | none => exact List.nodup_nil
      | some event => exact List.nodup_singleton event
    · rintro event inside other latest rfl
      have passing := (progress_of_latest (Option.mem_toList.mp latest)).2
      rw [durable_of_mem inside] at passing
      cases passing
  · intro event inside
    rcases List.mem_append.mp inside with durable | latest
    · exact (List.mem_filter.mp durable).1
    · exact (progress_of_latest (Option.mem_toList.mp latest)).1

/-- What is read is the index with the event of progress. -/
theorem Recorded.result (recorded : Recorded engine relationshipId base events db progress)
    (distinct : ((base ++ events).map SyncEvent.id).Nodup) (limit : Nat) :
    (AeordbSync.getEvents engine relationshipId limit (.quiet db progress)).1 =
      .ok (newest SyncEvent.key limit (indexAfter base (durableEvents relationshipId events) ++
        (latestProgress relationshipId events).toList)) := by
  have own : (events.map SyncEvent.id).Nodup := by
    rw [List.map_append] at distinct
    exact distinct.of_append_right
  have unique : ((indexAfter base (durableEvents relationshipId events) ++
      (latestProgress relationshipId events).toList).map SyncEvent.id).Nodup := by
    apply nodup_of_subperm _ distinct
    apply ((List.subperm_append_right _).mpr indexAfter_subperm).trans
    rw [List.append_assoc]
    exact (List.subperm_append_left base).mpr (latest_subperm own)
  by_cases nothing : limit = 0
  · rw [nothing, getEvents_zero]
    rfl
  rw [← sortDedupeTruncate_newest unique]
  cases indexed : storedIndex engine db relationshipId with
  | some found =>
      have durable := recorded.index
      rw [indexed] at durable
      rw [getEvents_indexed nothing indexed, ← durable, recorded.progress]
      rfl
  | none =>
      obtain ⟨rfl, bare⟩ := recorded.bare indexed
      rw [bare]
      cases present : engine.present db (activityDir relationshipId) with
      | false =>
          rw [getEvents_absent nothing indexed present, recorded.progress]
          rfl
      | true =>
          obtain ⟨filled, equal, done⟩ := @getEvents_backfilled _ _ _ progress _ _ nothing indexed present
          rw [done, equal, recorded.collect indexed, List.append_nil, recorded.progress]
          rfl

theorem ActivityLog.after_concat (log : ActivityLog σ) (calls : List ActivityCall) (call : ActivityCall) :
    log.after engine (calls ++ [call]) = (call.perform engine (log.after engine calls)).2 := by
  simp only [ActivityLog.after, List.foldl_append, List.foldl_cons, List.foldl_nil]

theorem perform_getEvents (other : Text) (limit : Nat) (log : ActivityLog σ) :
    ((ActivityCall.getEvents other limit).perform engine log).2 = (AeordbSync.getEvents engine other limit log).2 := by
  simp only [ActivityCall.perform, Proc.bind_apply]
  rcases AeordbSync.getEvents engine other limit log with ⟨_ | _, _⟩ <;> rfl

/-- What is recorded after a sequence of calls. -/
theorem Recorded.after {first : Text → Option SyncEvent} (start : Recorded engine relationshipId base [] db first)
    (kept : base.filter isDurableActivityEvent = base) (calls : List ActivityCall)
    (distinct : ((base ++ loggedEvents calls).map SyncEvent.id).Nodup) :
    ∃ next progress, (ActivityLog.quiet db first).after engine calls = .quiet next progress ∧
      Recorded engine relationshipId base (loggedEvents calls) next progress := by
  induction calls using List.reverseRecOn with
  | nil => exact ⟨db, first, rfl, start⟩
  | append_singleton calls call ih =>
      rw [loggedEvents_append] at distinct
      have fewer : ((base ++ loggedEvents calls).map SyncEvent.id).Nodup := by
        rw [← List.append_assoc, List.map_append] at distinct
        exact distinct.of_append_left
      obtain ⟨middle, progress, before, recorded⟩ := ih fewer
      have last : (ActivityLog.quiet db first).after engine (calls ++ [call]) =
          (call.perform engine (.quiet middle progress)).2 := by
        rw [ActivityLog.after_concat, before]
      cases call with
      | getEvents other limit =>
          obtain ⟨next, reached, still⟩ := recorded.getEvents other limit
          have logged : loggedEvents (calls ++ [.getEvents other limit]) = loggedEvents calls := by
            rw [loggedEvents_append]
            exact List.append_nil _
          rw [logged, last, perform_getEvents]
          exact ⟨next, progress, reached, still⟩
      | logEvent event =>
          have logged : loggedEvents (calls ++ [.logEvent event]) = loggedEvents calls ++ [event] := by
            rw [loggedEvents_append]
            rfl
          rw [logged, last]
          by_cases kind : event.eventType = text "progress"
          · refine ⟨_, _, ?_, recorded.logProgress kind⟩
            exact congrArg Prod.snd (logEvent_progress kind)
          · refine ⟨_, _, ?_, recorded.logDurable (isDurable_iff.mpr kind) kept ?_⟩
            · exact congrArg Prod.snd (logEvent_durable kind)
            · apply nodup_of_subperm _ distinct
              apply (List.subperm_append_left base).mpr
              exact (List.filter_sublist).subperm

end

end AeordbSync

import AeordbSync.Activity.Latest

namespace AeordbSync
open Characters Effect StateStore Newest

/-- How far a call that logs an event has come. -/
inductive WriterStage where
  | called
  | filed
  | found
  | read (events : List SyncEvent)
  | indexed
  | returned (result : Except ClientError Unit)
  deriving DecidableEq

structure Writer where
  event : SyncEvent
  stage : WriterStage
  deriving DecidableEq

/-- Calls that log events share the log, and each keeps what it has read. -/
structure ActivityWriters (σ : Type) where
  log : ActivityLog σ
  writers : List Writer

section

variable {σ : Type} (engine : StateEngine σ)

/-- An index that cannot be read counts as empty. -/
def contentEvents : Except ClientError (Option Json) → List SyncEvent
  | .ok (some json) => (SyncEvent.listOfJson json).getD []
  | _ => []

/-- The call up to its next access to what the calls share. -/
def WriterStage.next (event : SyncEvent) : WriterStage → ActivityProgram σ WriterStage
  | .called =>
      if event.eventType = text "progress" then do
        Proc.modify (setProgress event.relationshipId (some event))
        pure (.returned (.ok ()))
      else do
        onState (storeJson engine (eventPath event) event.json)
        pure .filed
  | .filed => do
      match ← onState (Proc.attempt (pathExists engine (indexPath event.relationshipId))) with
      | .ok true => pure .found
      | _ => pure (.read [])
  | .found => do
      let path := indexPath event.relationshipId
      let content ← onState (Proc.attempt (call (fun error => .server error) fun db => (engine.file db path, db)))
      pure (.read (contentEvents content))
  | .read events => do
      onState (storeIndex engine event.relationshipId (extendIndex event events))
      pure .indexed
  | .indexed => do
      Proc.modify (setProgress event.relationshipId none)
      pure (.returned (.ok ()))
  | .returned result => pure (.returned result)

/-- A failure ends the call. -/
def Writer.step (writer : Writer) (log : ActivityLog σ) : Writer × ActivityLog σ :=
  match writer.stage.next engine writer.event log with
  | (.ok stage, after) => ({ writer with stage := stage }, after)
  | (.error error, after) => ({ writer with stage := .returned (.error error) }, after)

namespace ActivityWriters

def step (s : ActivityWriters σ) (index : Nat) : ActivityWriters σ :=
  match s.writers[index]? with
  | none => s
  | some writer => ⟨(writer.step engine s.log).2, s.writers.set index (writer.step engine s.log).1⟩

/-- The schedule says which call makes each step. -/
def run (s : ActivityWriters σ) (schedule : List Nat) : ActivityWriters σ := schedule.foldl (step engine) s

def start (log : ActivityLog σ) (events : List SyncEvent) : ActivityWriters σ :=
  ⟨log, events.map fun event => ⟨event, .called⟩⟩

/-- A call that writes the index finds it as it read it. -/
def Careful (s : ActivityWriters σ) (index : Nat) : Prop :=
  match s.writers[index]? with
  | some ⟨event, .read events⟩ => (storedIndex engine s.log.state.db event.relationshipId).getD [] = events
  | _ => True

instance (s : ActivityWriters σ) (index : Nat) : Decidable (s.Careful engine index) := by
  unfold Careful
  split <;> infer_instance

def CarefulRun (s : ActivityWriters σ) : List Nat → Prop
  | [] => True
  | index :: later => s.Careful engine index ∧ CarefulRun (s.step engine index) later

instance decidableCarefulRun : ∀ (s : ActivityWriters σ) (schedule : List Nat), Decidable (s.CarefulRun engine schedule)
  | _, [] => inferInstanceAs (Decidable True)
  | s, index :: later =>
      have := decidableCarefulRun (s.step engine index) later
      inferInstanceAs (Decidable (_ ∧ _))

end ActivityWriters

end

section

variable {σ : Type} {engine : StateEngine σ}

theorem call_cases {α : Type} (failure : Text → ClientError) (run : σ → α × σ) (s : StateStore σ) :
    (∃ later, call failure run s = (.ok (run s.db).1, ⟨(run s.db).2, later⟩)) ∨
      ∃ error later, call failure run s = (.error error, ⟨s.db, later⟩) := by
  obtain ⟨db, faults⟩ := s
  cases faults with
  | nil => exact .inl ⟨[], rfl⟩
  | cons fault later =>
      cases fault with
      | none => exact .inl ⟨later, rfl⟩
      | some error => exact .inr ⟨failure error, later, rfl⟩

/-- What remains of a call at a stage of it. -/
def WriterStage.rest (engine : StateEngine σ) (event : SyncEvent) : WriterStage → ActivityProgram σ Unit
  | .called => logEvent engine event
  | .filed => do
      onState (updateLatestEventsIndex engine event)
      Proc.modify (setProgress event.relationshipId none)
  | .found => do
      let path := indexPath event.relationshipId
      let content ← onState (Proc.attempt (call (fun error => .server error) fun db => (engine.file db path, db)))
      onState (storeIndex engine event.relationshipId (extendIndex event (contentEvents content)))
      Proc.modify (setProgress event.relationshipId none)
  | .read events => do
      onState (storeIndex engine event.relationshipId (extendIndex event events))
      Proc.modify (setProgress event.relationshipId none)
  | .indexed => Proc.modify (setProgress event.relationshipId none)
  | .returned result => Proc.ofExcept result

theorem WriterStage.rest_next (event : SyncEvent) (stage : WriterStage) (log : ActivityLog σ) :
    (stage.next engine event >>= WriterStage.rest engine event) log = stage.rest engine event log := by
  cases stage with
  | called =>
      simp only [WriterStage.next, WriterStage.rest, logEvent]
      split
      · rfl
      · simp only [Proc.bind_apply, onState, Proc.zoom]
        rcases storeJson engine (eventPath event) event.json log.state with ⟨result, after⟩
        cases result <;> rfl
  | filed =>
      simp only [WriterStage.next, WriterStage.rest, updateLatestEventsIndex, readIndex, readJson, Proc.bind_apply,
        onState, Proc.zoom, Proc.attempt]
      rcases pathExists engine (indexPath event.relationshipId) log.state with ⟨known, after⟩
      rcases known with error | known
      · rfl
      · cases known
        · rfl
        · simp only [Proc.bind_apply, Proc.zoom, Proc.attempt, Proc.pure_apply]
          generalize call _ _ after = reached
          obtain ⟨content, last⟩ := reached
          rcases content with error | found
          · rfl
          · cases found <;> rfl
  | found => rfl
  | read events =>
      simp only [WriterStage.next, WriterStage.rest, Proc.bind_apply, onState, Proc.zoom]
      rcases storeIndex engine event.relationshipId (extendIndex event events) log.state with ⟨result, after⟩
      cases result <;> rfl
  | indexed => rfl
  | returned result => rfl

/-- The event is in the index, or has been and others were newer. -/
def WriterStage.Written : WriterStage → Prop
  | .indexed => True
  | .returned (.ok ()) => True
  | _ => False

/-- The steps that a call has left at most. -/
def WriterStage.distance : WriterStage → Nat
  | .called => 5
  | .filed => 4
  | .found => 3
  | .read _ => 2
  | .indexed => 1
  | .returned _ => 0

/-- A step that does not write the index. -/
structure WriterStage.Passes (engine : StateEngine σ) (event : SyncEvent) (stage later : WriterStage) (db after : σ) : Prop where
  index : ∀ id, storedIndex engine after id = storedIndex engine db id
  closer : later.distance ≤ stage.distance - 1
  written : isDurableActivityEvent event = true → (later.Written ↔ stage.Written)

theorem Writer.step_leads (writer : Writer) (log : ActivityLog σ) :
    (writer.step engine log).1.event = writer.event ∧
      (WriterStage.Passes engine writer.event writer.stage (writer.step engine log).1.stage log.state.db
          (writer.step engine log).2.state.db ∨
        ∃ events, writer.stage = .read events ∧ (writer.step engine log).1.stage = .indexed ∧
          (writer.step engine log).2.state.db =
            putIndex engine writer.event.relationshipId (extendIndex writer.event events) log.state.db) := by
  obtain ⟨event, stage⟩ := writer
  cases stage with
  | called =>
      simp only [Writer.step, WriterStage.next]
      by_cases kind : event.eventType = text "progress"
      · rw [if_pos kind]
        refine ⟨rfl, .inl ⟨fun _ => rfl, Nat.zero_le _, ?_⟩⟩
        intro durable
        exact absurd kind (isDurable_iff.mp durable)
      · rw [if_neg kind]
        simp only [Proc.bind_apply, onState, Proc.zoom]
        rcases call_cases (fun error => .server (text "failed to store " ++ eventPath event ++ text " in state database: " ++ error))
          (fun db => ((), engine.put [(eventPath event, event.json)] db)) log.state with ⟨later, done⟩ | ⟨error, later, fault⟩
        · rw [storeJson, done]
          exact ⟨rfl, .inl ⟨fun id => storedIndex_putEvent _ _ id, Nat.le_refl 4, fun _ => Iff.rfl⟩⟩
        · rw [storeJson, fault]
          exact ⟨rfl, .inl ⟨fun _ => rfl, Nat.zero_le _, fun _ => Iff.rfl⟩⟩
  | filed =>
      simp only [Writer.step, WriterStage.next, Proc.bind_apply, onState, Proc.zoom, Proc.attempt]
      rcases call_cases (fun error => .server (text "failed to check existence of " ++ indexPath event.relationshipId ++
          text " in state database: " ++ error))
        (fun db => (engine.present db (indexPath event.relationshipId), db)) log.state with ⟨later, done⟩ | ⟨error, later, fault⟩
      · rw [pathExists, done]
        cases engine.present log.state.db (indexPath event.relationshipId) with
        | true => exact ⟨rfl, .inl ⟨fun _ => rfl, Nat.le_refl 3, fun _ => Iff.rfl⟩⟩
        | false => exact ⟨rfl, .inl ⟨fun _ => rfl, by show 2 ≤ 3; decide, fun _ => Iff.rfl⟩⟩
      · rw [pathExists, fault]
        exact ⟨rfl, .inl ⟨fun _ => rfl, by show 2 ≤ 3; decide, fun _ => Iff.rfl⟩⟩
  | found =>
      simp only [Writer.step, WriterStage.next, Proc.bind_apply, onState, Proc.zoom, Proc.attempt]
      rcases call_cases (fun error => .server error) (fun db => (engine.file db (indexPath event.relationshipId), db))
        log.state with ⟨later, done⟩ | ⟨error, later, fault⟩
      · rw [done]
        exact ⟨rfl, .inl ⟨fun _ => rfl, Nat.le_refl 2, fun _ => Iff.rfl⟩⟩
      · rw [fault]
        exact ⟨rfl, .inl ⟨fun _ => rfl, Nat.le_refl 2, fun _ => Iff.rfl⟩⟩
  | read events =>
      simp only [Writer.step, WriterStage.next, Proc.bind_apply, onState, Proc.zoom, storeIndex, storeJson]
      rcases call_cases (fun error => .server (text "failed to store " ++ indexPath event.relationshipId ++
          text " in state database: " ++ error))
        (fun db => ((), engine.put [(indexPath event.relationshipId, SyncEvent.listJson (extendIndex event events))] db))
        log.state with ⟨later, done⟩ | ⟨error, later, fault⟩
      · rw [done]
        exact ⟨rfl, .inr ⟨events, rfl, rfl, rfl⟩⟩
      · rw [fault]
        exact ⟨rfl, .inl ⟨fun _ => rfl, Nat.zero_le _, fun _ => Iff.rfl⟩⟩
  | indexed => exact ⟨rfl, .inl ⟨fun _ => rfl, le_rfl, fun _ => Iff.rfl⟩⟩
  | returned result => exact ⟨rfl, .inl ⟨fun _ => rfl, le_rfl, fun _ => Iff.rfl⟩⟩

theorem Writer.run_alone (writer : Writer) (log : ActivityLog σ) {n : Nat} (enough : writer.stage.distance ≤ n) :
    (⟨log, [writer]⟩ : ActivityWriters σ).run engine (List.replicate n 0) =
      ⟨(writer.stage.rest engine writer.event log).2,
        [⟨writer.event, .returned (writer.stage.rest engine writer.event log).1⟩]⟩ := by
  induction n generalizing writer log with
  | zero =>
      obtain ⟨event, stage⟩ := writer
      cases stage <;> simp only [WriterStage.distance] at enough <;> first | omega | rfl
  | succ n ih =>
      have closer : (writer.step engine log).1.stage.distance ≤ writer.stage.distance - 1 := by
        rcases (writer.step_leads log).2 with passes | ⟨events, before, after, -⟩
        · exact passes.closer
        · rw [before, after]
          exact Nat.le_refl 1
      have fewer : (writer.step engine log).1.stage.distance ≤ n := by omega
      have same : (writer.step engine log).1.stage.rest engine (writer.step engine log).1.event
          (writer.step engine log).2 = writer.stage.rest engine writer.event log := by
        have next := @WriterStage.rest_next _ engine writer.event writer.stage log
        rw [Proc.bind_apply] at next
        unfold Writer.step
        rcases stepped : writer.stage.next engine writer.event log with ⟨result, after⟩
        rw [stepped] at next
        cases result <;> exact next
      have later := ih (writer.step engine log).1 (writer.step engine log).2 fewer
      rw [same, (writer.step_leads log).1] at later
      exact later

/-- A call that is alone does what the whole call does. -/
theorem logEvent_alone (event : SyncEvent) (log : ActivityLog σ) :
    (ActivityWriters.start log [event]).run engine (List.replicate 5 0) =
      ⟨(logEvent engine event log).2, [⟨event, .returned (logEvent engine event log).1⟩]⟩ :=
  Writer.run_alone ⟨event, .called⟩ log le_rfl

variable {relationshipId : Text} {base logged : List SyncEvent} {s : ActivityWriters σ}

/-- The event is one of the first index, or a call has written it. -/
def ActivityWriters.Stored (s : ActivityWriters σ) (relationshipId : Text) (base : List SyncEvent) (event : SyncEvent) : Prop :=
  event ∈ base ∨ event.relationshipId = relationshipId ∧ isDurableActivityEvent event = true ∧
    ∃ (index : Nat) (writer : Writer), s.writers[index]? = some writer ∧ writer.stage.Written ∧ writer.event = event

/-- The index has the newest of the events that have been written to it, and no others. -/
structure IndexKeeps (engine : StateEngine σ) (relationshipId : Text) (base logged : List SyncEvent)
    (s : ActivityWriters σ) : Prop where
  events : s.writers.map Writer.event = logged
  unique : ((indexedEvents engine s.log.state.db relationshipId).map SyncEvent.id).Nodup
  known : ∀ event ∈ indexedEvents engine s.log.state.db relationshipId, s.Stored relationshipId base event
  kept : ∀ event, s.Stored relationshipId base event →
    newer SyncEvent.key (base ++ durableEvents relationshipId logged) event < latestEventsLimit →
    event ∈ indexedEvents engine s.log.state.db relationshipId

theorem stored_set {log : ActivityLog σ} {index : Nat} {writer next : Writer} {event : SyncEvent}
    (present : s.writers[index]? = some writer) (same : next.event = writer.event)
    (stays : writer.stage.Written → isDurableActivityEvent writer.event = true → next.stage.Written) :
    (⟨log, s.writers.set index next⟩ : ActivityWriters σ).Stored relationshipId base event ↔
      s.Stored relationshipId base event ∨ next.stage.Written ∧ writer.event = event ∧
        event.relationshipId = relationshipId ∧ isDurableActivityEvent event = true := by
  have inside : index < s.writers.length := (List.getElem?_eq_some_iff.mp present).1
  constructor
  · rintro (old | ⟨own, durable, place, found, holds, written, rfl⟩)
    · exact .inl (.inl old)
    · by_cases here : index = place
      · subst here
        rw [List.getElem?_set_self inside, Option.some.injEq] at holds
        subst holds
        exact .inr ⟨written, same.symm, own, durable⟩
      · rw [List.getElem?_set_ne here] at holds
        exact .inl (.inr ⟨own, durable, place, found, holds, written, rfl⟩)
  · rintro ((old | ⟨own, durable, place, found, holds, written, rfl⟩) | ⟨written, rfl, own, durable⟩)
    · exact .inl old
    · by_cases here : index = place
      · subst here
        rw [present, Option.some.injEq] at holds
        subst holds
        exact .inr ⟨own, durable, index, next, List.getElem?_set_self inside, stays written durable, same⟩
      · exact .inr ⟨own, durable, place, found, (List.getElem?_set_ne here).trans holds, written, rfl⟩
    · exact .inr ⟨own, durable, index, next, List.getElem?_set_self inside, written, same⟩

theorem map_event_set {writers : List Writer} {index : Nat} {writer next : Writer}
    (present : writers[index]? = some writer) (same : next.event = writer.event) :
    (writers.set index next).map Writer.event = writers.map Writer.event := by
  obtain ⟨inside, rfl⟩ := List.getElem?_eq_some_iff.mp present
  rw [List.map_set, same]
  apply List.ext_getElem?
  intro place
  by_cases here : index = place
  · subst here
    simp [inside]
  · simp [List.getElem?_set_ne here]

/-- Another write of the index of a relationship keeps the newest events. -/
theorem indexedEvents_extend {db : σ} {event : SyncEvent} {events : List SyncEvent}
    (current : (storedIndex engine db event.relationshipId).getD [] = events)
    (unique : ((indexedEvents engine db event.relationshipId ++
      [event].filter isDurableActivityEvent).map SyncEvent.id).Nodup) :
    indexedEvents engine (putIndex engine event.relationshipId (extendIndex event events) db) event.relationshipId =
      newest SyncEvent.key latestEventsLimit (indexedEvents engine db event.relationshipId ++
        [event].filter isDurableActivityEvent) := by
  have extended : extendIndex event events = newest SyncEvent.key latestEventsLimit
      (indexedEvents engine db event.relationshipId ++ [event].filter isDurableActivityEvent) := by
    rw [extendIndex, List.filter_append, ← current]
    exact sortDedupeTruncate_newest unique latestEventsLimit
  rw [indexedEvents, storedIndex_putIndex, if_pos rfl, Option.getD_some, extended, List.filter_eq_self]
  intro other inside
  rcases List.mem_append.mp (mem_of_mem_newest inside) with old | new
  · exact (List.mem_filter.mp old).2
  · exact (List.mem_filter.mp new).2

theorem IndexKeeps.congr {next : ActivityWriters σ} (keeps : IndexKeeps engine relationshipId base logged s)
    (events : next.writers.map Writer.event = logged)
    (unmoved : indexedEvents engine next.log.state.db relationshipId = indexedEvents engine s.log.state.db relationshipId)
    (stored : ∀ event, next.Stored relationshipId base event ↔ s.Stored relationshipId base event) :
    IndexKeeps engine relationshipId base logged next := by
  refine ⟨events, ?_, ?_, ?_⟩
  · rw [unmoved]
    exact keeps.unique
  · intro event inside
    exact (stored event).mpr (keeps.known event (unmoved ▸ inside))
  · intro event inside few
    rw [unmoved]
    exact keeps.kept event ((stored event).mp inside) few

theorem IndexKeeps.passes (keeps : IndexKeeps engine relationshipId base logged s) {log : ActivityLog σ} {index : Nat}
    {writer next : Writer} (present : s.writers[index]? = some writer) (same : next.event = writer.event)
    (passes : WriterStage.Passes engine writer.event writer.stage next.stage s.log.state.db log.state.db) :
    IndexKeeps engine relationshipId base logged ⟨log, s.writers.set index next⟩ := by
  apply keeps.congr ((map_event_set present same).trans keeps.events)
  · rw [indexedEvents, indexedEvents, passes.index]
  · intro event
    rw [stored_set present same fun holds durable => (passes.written durable).mpr holds]
    constructor
    · rintro (old | ⟨holds, rfl, mine, durable⟩)
      · exact old
      · exact .inr ⟨mine, durable, index, writer, present, (passes.written durable).mp holds, rfl⟩
    · exact .inl

theorem nodup_existing (distinct : ((base ++ logged).map SyncEvent.id).Nodup) :
    ((base ++ durableEvents relationshipId logged).map SyncEvent.id).Nodup :=
  nodup_of_subperm ((List.subperm_append_left base).mpr List.filter_sublist.subperm) distinct

/-- The event of a call that has not written it is not in the index. -/
theorem IndexKeeps.fresh (keeps : IndexKeeps engine relationshipId base logged s)
    (distinct : ((base ++ logged).map SyncEvent.id).Nodup) {index : Nat} {writer : Writer}
    (present : s.writers[index]? = some writer) (unwritten : ¬ writer.stage.Written) :
    writer.event ∉ indexedEvents engine s.log.state.db relationshipId := by
  have events : (base ++ logged).Nodup := distinct.of_map
  have placed : logged[index]? = some writer.event := by
    rw [← keeps.events, List.getElem?_map, present]
    rfl
  intro inside
  rcases keeps.known writer.event inside with old | ⟨-, -, place, other, present', written, equal⟩
  · exact List.disjoint_of_nodup_append events old (List.mem_of_getElem? placed)
  · have again : logged[place]? = some writer.event := by
      rw [← keeps.events, List.getElem?_map, present', ← equal]
      rfl
    have within : index < logged.length := (List.getElem?_eq_some_iff.mp placed).1
    have here : index = place :=
      (List.getElem?_inj within events.of_append_right).mp (placed.trans again.symm)
    subst here
    rw [present, Option.some.injEq] at present'
    exact unwritten (present' ▸ written)

theorem IndexKeeps.writes (keeps : IndexKeeps engine relationshipId base logged s)
    (distinct : ((base ++ logged).map SyncEvent.id).Nodup) {log : ActivityLog σ} {index : Nat} {writer next : Writer}
    {events : List SyncEvent} (present : s.writers[index]? = some writer) (same : next.event = writer.event)
    (before : writer.stage = .read events) (after : next.stage = .indexed)
    (current : (storedIndex engine s.log.state.db writer.event.relationshipId).getD [] = events)
    (reached : log.state.db = putIndex engine writer.event.relationshipId (extendIndex writer.event events) s.log.state.db) :
    IndexKeeps engine relationshipId base logged ⟨log, s.writers.set index next⟩ := by
  have unwritten : ¬ writer.stage.Written := by
    rw [before]
    exact id
  have written : next.stage.Written := by
    rw [after]
    trivial
  have stored := fun event => @stored_set _ relationshipId base _ log _ _ _ event
    present same fun holds _ => absurd holds unwritten
  have mapped := (map_event_set present same).trans keeps.events
  by_cases own : writer.event.relationshipId = relationshipId
  · let extended := indexedEvents engine s.log.state.db relationshipId ++ [writer.event].filter isDurableActivityEvent
    have known : ∀ event ∈ extended,
        (⟨log, s.writers.set index next⟩ : ActivityWriters σ).Stored relationshipId base event := by
      intro event inside
      rw [stored]
      rcases List.mem_append.mp inside with old | new
      · exact .inl (keeps.known event old)
      · obtain ⟨only, durable⟩ := List.mem_filter.mp new
        obtain rfl := List.mem_singleton.mp only
        exact .inr ⟨written, rfl, own, durable⟩
    have once : extended.Nodup := by
      rw [List.nodup_append]
      refine ⟨keeps.unique.of_map, (List.nodup_singleton _).filter _, ?_⟩
      rintro event old _ new rfl
      obtain rfl := List.mem_singleton.mp (List.mem_filter.mp new).1
      exact keeps.fresh distinct present unwritten old
    have within : extended.Subperm (base ++ durableEvents relationshipId logged) := by
      apply List.subperm_of_subset once
      intro event inside
      rcases known event inside with old | ⟨mine, durable, place, found, holds, -, rfl⟩
      · exact List.mem_append_left _ old
      · apply List.mem_append_right
        rw [durableEvents, List.mem_filter, mine, durable, ← mapped]
        exact ⟨List.mem_map_of_mem (List.mem_of_getElem? holds), by simp⟩
    have unique := nodup_of_subperm within (nodup_existing distinct)
    have result : indexedEvents engine log.state.db relationshipId = newest SyncEvent.key latestEventsLimit extended := by
      subst own
      rw [reached]
      exact indexedEvents_extend current unique
    refine ⟨mapped, ?_, ?_, ?_⟩
    · show ((indexedEvents engine log.state.db relationshipId).map SyncEvent.id).Nodup
      rw [result]
      exact nodup_of_subperm newest_subperm unique
    · intro event inside
      apply known
      change event ∈ indexedEvents engine log.state.db relationshipId at inside
      rw [result] at inside
      exact mem_of_mem_newest inside
    · intro event inside few
      show event ∈ indexedEvents engine log.state.db relationshipId
      rw [result, mem_newest (SyncEvent.key_injOn unique)]
      have counted := within.countP_le fun other => decide (event.key < other.key)
      refine ⟨?_, counted.trans_lt few⟩
      rcases (stored event).mp inside with old | ⟨-, rfl, -, durable⟩
      · exact List.mem_append_left _ (keeps.kept event old few)
      · exact List.mem_append_right _ (List.mem_filter.mpr ⟨List.mem_singleton_self _, durable⟩)
  · apply keeps.congr mapped
    · rw [indexedEvents, indexedEvents, reached, storedIndex_putIndex, if_neg (Ne.symm own)]
    · intro event
      rw [stored]
      constructor
      · rintro (old | ⟨-, rfl, mine, -⟩)
        · exact old
        · exact absurd mine own
      · exact .inl

theorem IndexKeeps.step (keeps : IndexKeeps engine relationshipId base logged s)
    (distinct : ((base ++ logged).map SyncEvent.id).Nodup) {index : Nat} (careful : s.Careful engine index) :
    IndexKeeps engine relationshipId base logged (s.step engine index) := by
  unfold ActivityWriters.step
  cases present : s.writers[index]? with
  | none => exact keeps
  | some writer =>
      obtain ⟨same, passes | ⟨events, before, after, reached⟩⟩ := @Writer.step_leads _ engine writer s.log
      · exact keeps.passes present same passes
      · apply keeps.writes distinct present same before after _ reached
        obtain ⟨event, stage⟩ := writer
        subst before
        rw [ActivityWriters.Careful, present] at careful
        exact careful

theorem IndexKeeps.run (keeps : IndexKeeps engine relationshipId base logged s)
    (distinct : ((base ++ logged).map SyncEvent.id).Nodup) {schedule : List Nat}
    (careful : s.CarefulRun engine schedule) :
    IndexKeeps engine relationshipId base logged (s.run engine schedule) := by
  induction schedule generalizing s with
  | nil => exact keeps
  | cons index later ih => exact ih (keeps.step distinct careful.1) careful.2

/-- Every event whose call has returned is in the index while few enough durable events are newer, when each
call that writes the index finds it as it read it. -/
theorem logEvents_keep (log : ActivityLog σ) (events : List SyncEvent) (schedule : List Nat)
    (distinct : ((indexedEvents engine log.state.db relationshipId ++ events).map SyncEvent.id).Nodup)
    (careful : (ActivityWriters.start log events).CarefulRun engine schedule) (writer : Writer)
    (called : writer ∈ ((ActivityWriters.start log events).run engine schedule).writers)
    (returned : writer.stage = .returned (.ok ())) (own : writer.event.relationshipId = relationshipId)
    (durable : isDurableActivityEvent writer.event = true)
    (few : newer SyncEvent.key (indexedEvents engine log.state.db relationshipId ++
      durableEvents relationshipId events) writer.event < latestEventsLimit) :
    writer.event ∈ indexedEvents engine ((ActivityWriters.start log events).run engine schedule).log.state.db
      relationshipId := by
  have start : IndexKeeps engine relationshipId (indexedEvents engine log.state.db relationshipId) events
      (ActivityWriters.start log events) := by
    refine ⟨?_, ?_, fun event old => .inl old, ?_⟩
    · rw [ActivityWriters.start, List.map_map]
      exact List.map_id events
    · rw [List.map_append] at distinct
      exact distinct.of_append_left
    · rintro event (old | ⟨-, -, index, writer, present, written, -⟩) _
      · exact old
      · rw [ActivityWriters.start, List.getElem?_map, Option.map_eq_some_iff] at present
        obtain ⟨logged, -, rfl⟩ := present
        exact absurd written id
  obtain ⟨index, present⟩ := List.mem_iff_getElem?.mp called
  apply (start.run distinct careful).kept writer.event _ few
  refine .inr ⟨own, durable, index, writer, present, ?_, rfl⟩
  rw [returned]
  trivial

end

namespace ActivitySample

/-- Two calls of one relationship from an empty store. -/
def writing (schedule : List Nat) : ActivityWriters MemoryState :=
  (ActivityWriters.start (startedLog ∅) [pushed, pulled]).run MemoryState.engine schedule

/-- Each call reads the index before the other writes it. -/
def overlapping : List Nat := [0, 0, 1, 1, 0, 1, 0, 1]

/-- The second call reads what the first has written. -/
def consecutive : List Nat := [0, 1, 0, 0, 1, 1, 0, 1, 1]

def indexed (s : ActivityWriters MemoryState) : List SyncEvent :=
  indexedEvents MemoryState.engine s.log.state.db (text "docs")

end ActivitySample

open ActivitySample in
/-- Both events are in the index when the second call reads what the first has written. -/
theorem logEvents_keep_consecutive :
    pushed ∈ indexed (writing consecutive) ∧ pulled ∈ indexed (writing consecutive) := by
  have distinct : ((indexedEvents MemoryState.engine (∅ : MemoryState) (text "docs") ++ [pushed, pulled]).map
      SyncEvent.id).Nodup := by decide +kernel
  have keep := logEvents_keep (startedLog (∅ : MemoryState)) [pushed, pulled] consecutive distinct (by decide +kernel)
  constructor
  · exact keep ⟨pushed, .returned (.ok ())⟩ (by decide +kernel) rfl rfl (by decide) (by decide +kernel)
  · exact keep ⟨pulled, .returned (.ok ())⟩ (by decide +kernel) rfl rfl (by decide) (by decide +kernel)

open ActivitySample in
/-- Two calls that overlap both return, and the index has lost the event of one of them. -/
theorem logEvents_lose : ¬ ∀ (log : ActivityLog MemoryState) (events : List SyncEvent) (schedule : List Nat)
    (relationshipId : Text),
    ((indexedEvents MemoryState.engine log.state.db relationshipId ++ events).map SyncEvent.id).Nodup →
    (∀ event ∈ events, event.relationshipId = relationshipId ∧ isDurableActivityEvent event = true) →
    (∀ writer ∈ ((ActivityWriters.start log events).run MemoryState.engine schedule).writers,
      writer.stage = .returned (.ok ())) →
    ∀ event ∈ events, newer SyncEvent.key (indexedEvents MemoryState.engine log.state.db relationshipId ++
        durableEvents relationshipId events) event < latestEventsLimit →
      event ∈ indexedEvents MemoryState.engine
        ((ActivityWriters.start log events).run MemoryState.engine schedule).log.state.db relationshipId := by
  intro all
  have kept := all (startedLog ∅) [pushed, pulled] overlapping (text "docs") (by decide +kernel) (by decide)
    (by decide +kernel) pushed List.mem_cons_self (by decide +kernel)
  revert kept
  decide +kernel

end AeordbSync

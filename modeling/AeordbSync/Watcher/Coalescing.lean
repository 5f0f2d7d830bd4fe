import Mathlib.Data.List.Nodup
import AeordbSync.Errors
import AeordbSync.Library.OsPath
import AeordbSync.Library.Runs

namespace AeordbSync
open Characters OsPath Runs

inductive FsChangeType where
  | created
  | modified
  | deleted
  deriving DecidableEq

structure FsChange where
  path : PathBuf
  changeType : FsChangeType
  deriving DecidableEq

structure FsWatcherConfig where
  debounceMs : Nat
  maxWaitMs : Nat

inductive EventKind where
  | create
  | modify
  | remove
  | other
  deriving DecidableEq

def EventKind.changeType? : EventKind → Option FsChangeType
  | .create => some .created
  | .modify => some .modified
  | .remove => some .deleted
  | .other => none

/-- A path of a raw event, whether a directory is found there, and the instant at which the loop takes it. -/
structure TouchedPath where
  path : PathBuf
  isDir : Bool
  time : Nat
  deriving DecidableEq

/-- A pending path. The instant of its first event since it was last emitted is only kept for what is said
about it. -/
structure PendingChange where
  path : PathBuf
  changeType : FsChangeType
  time : Nat
  first : Nat
  deriving DecidableEq

def PendingChange.change (entry : PendingChange) : FsChange := ⟨entry.path, entry.changeType⟩

/-- What the loop has taken in and what it has given out. -/
inductive WatchEvent where
  | seen (change : FsChange)
  | emitted (change : FsChange)
  deriving DecidableEq

def WatchEvent.path : WatchEvent → PathBuf
  | .seen change => change.path
  | .emitted change => change.path

/-- Instants are nanoseconds. The pending paths are drained in an order that the loop does not choose. -/
structure FsWatcherEnv extends FsWatcherConfig where
  order : Nat → List PendingChange → List PendingChange
  order_perm : ∀ now pending, (order now pending).Perm pending

namespace FsWatcherEnv

variable (env : FsWatcherEnv)

def debounce : Nat := env.debounceMs * 1000000

def maxWait : Nat := env.maxWaitMs * 1000000

end FsWatcherEnv

/-- The coalescing loop. Its log has the newest event first. -/
structure FsWatcher where
  pending : List PendingChange
  clock : Nat
  running : Bool
  log : List WatchEvent

inductive WatcherInput where
  | event (kind : EventKind) (paths : List TouchedPath)
  | timeout
  | closed
  deriving DecidableEq

/-- One iteration of the loop, the instant of its flush step, and how many changes are sent before the receiver is
dropped, if it is. -/
structure WatcherIteration where
  input : WatcherInput
  now : Nat
  sent : Option Nat

def WatcherInput.times : WatcherInput → List Nat
  | .event _ paths => paths.map TouchedPath.time
  | _ => []

namespace FsWatcher

def start (clock : Nat) : FsWatcher := ⟨[], clock, true, []⟩

/-- A later event of a pending path takes the place of the earlier one. -/
def insert (pending : List PendingChange) (change : FsChange) (time : Nat) : List PendingChange :=
  let first := (pending.find? fun entry => entry.path = change.path).elim time PendingChange.first
  pending.filter (fun entry => entry.path ≠ change.path) ++ [⟨change.path, change.changeType, time, first⟩]

def touch (changeType : FsChangeType) (s : FsWatcher) (touched : TouchedPath) : FsWatcher :=
  if touched.isDir = true then s
  else { s with
    pending := insert s.pending ⟨touched.path, changeType⟩ touched.time
    log := .seen ⟨touched.path, changeType⟩ :: s.log }

def receive (s : FsWatcher) : WatcherInput → FsWatcher
  | .event kind paths => match kind.changeType? with
      | some changeType => paths.foldl (touch changeType) s
      | none => s
  | _ => s

def oldestEvent (pending : List PendingChange) (now : Nat) : Nat :=
  (pending.map PendingChange.time).min?.getD now

def newestEvent (pending : List PendingChange) (now : Nat) : Nat :=
  (pending.map PendingChange.time).max?.getD now

/-- The debounce window has expired, or the maximum wait is exceeded. -/
def due (env : FsWatcherEnv) (pending : List PendingChange) (now : Nat) : Bool :=
  decide (env.debounce ≤ now - newestEvent pending now) || decide (env.maxWait ≤ now - oldestEvent pending now)

def emit (s : FsWatcher) (changes : List FsChange) : FsWatcher :=
  { s with log := (changes.map WatchEvent.emitted).reverse ++ s.log }

/-- The loop returns when the receiver is dropped. -/
def drain (env : FsWatcherEnv) (s : FsWatcher) (now : Nat) (sent : Option Nat) : FsWatcher :=
  let changes := (env.order now s.pending).map PendingChange.change
  match sent with
  | none => { s.emit changes with pending := [] }
  | some count =>
      if count < changes.length then { s.emit (changes.take count) with pending := [], running := false }
      else { s.emit changes with pending := [] }

def flush (env : FsWatcherEnv) (s : FsWatcher) (now : Nat) (sent : Option Nat) : FsWatcher :=
  let clocked := { s with clock := now }
  if s.pending ≠ [] ∧ due env s.pending now = true then clocked.drain env now sent else clocked

/-- A timeout passes when nothing has come for the debounce window, or for a minute when nothing is pending. -/
def passes (env : FsWatcherEnv) (s : FsWatcher) (iteration : WatcherIteration) : Bool :=
  decide ((s.clock :: iteration.input.times ++ [iteration.now]).Pairwise (· ≤ ·)) &&
    match iteration.input with
    | .timeout => decide (s.clock + (if s.pending = [] then 60 * 1000000000 else env.debounce) ≤ iteration.now)
    | _ => true

def step (env : FsWatcherEnv) (s : FsWatcher) (iteration : WatcherIteration) : Option FsWatcher :=
  if s.running = true ∧ s.passes env iteration = true then
    match iteration.input with
    | .closed => some { s with running := false }
    | input => some ((s.receive input).flush env iteration.now iteration.sent)
  else none

/-- No path is pending whose first event since it was last emitted is the maximum wait or more in the past. -/
def Bounded (env : FsWatcherEnv) (s : FsWatcher) : Prop :=
  s.running = true → ∀ entry ∈ s.pending, s.clock - entry.first < env.maxWait

/-- When a path had its first event the maximum wait ago, some path had its latest event then too, or all paths had
theirs before the debounce window. -/
def Timely (env : FsWatcherEnv) (s : FsWatcher) (iteration : WatcherIteration) : Prop :=
  iteration.input ≠ .closed → (∃ entry ∈ (s.receive iteration.input).pending,
      env.maxWait ≤ iteration.now - entry.first) →
    (∃ entry ∈ (s.receive iteration.input).pending, env.maxWait ≤ iteration.now - entry.time) ∨
      ∀ entry ∈ (s.receive iteration.input).pending, env.debounce ≤ iteration.now - entry.time

instance (env : FsWatcherEnv) (s : FsWatcher) (iteration : WatcherIteration) :
    Decidable (s.Timely env iteration) := by
  unfold Timely
  infer_instance

/-- The newest event of a path in a log says that it was seen with a type. -/
def Awaits (log : List WatchEvent) (change : FsChange) : Prop :=
  log.find? (fun event => event.path = change.path) = some (.seen change)

/-- A path is only emitted with the type that it was last seen with since it was last emitted. -/
def Matched (log : List WatchEvent) : Prop :=
  ∀ later change earlier, log = later ++ .emitted change :: earlier → Awaits earlier change

/-- A path is pending just when it was seen after it was last emitted, with the type that it was last seen with. -/
structure Lossless (s : FsWatcher) : Prop where
  distinct : (s.pending.map PendingChange.path).Nodup
  awaits : s.running = true → ∀ change, change ∈ s.pending.map PendingChange.change ↔ Awaits s.log change
  matched : Matched s.log

variable {env : FsWatcherEnv} {s next : FsWatcher} {pending : List PendingChange} {now : Nat}
  {log : List WatchEvent} {change : FsChange}

theorem awaits_seen (other : FsChange) :
    Awaits (.seen other :: log) change ↔
      other = change ∨ other.path ≠ change.path ∧ Awaits log change := by
  unfold Awaits
  by_cases same : other.path = change.path
  · simp only [List.find?_cons, WatchEvent.path, same, decide_true, Option.some.injEq, WatchEvent.seen.injEq,
      ne_eq, not_true_eq_false, false_and, or_false]
  · have differs : other ≠ change := fun equal => same (by rw [equal])
    simp only [List.find?_cons, WatchEvent.path, same, decide_false, differs, ne_eq, not_false_eq_true,
      true_and, false_or]

theorem awaits_emitted (other : FsChange) :
    Awaits (.emitted other :: log) change ↔ other.path ≠ change.path ∧ Awaits log change := by
  unfold Awaits
  by_cases same : other.path = change.path
  · simp [WatchEvent.path, same]
  · simp [WatchEvent.path, same]

theorem Matched.seen (matched : Matched log) (other : FsChange) : Matched (.seen other :: log) := by
  intro later change earlier equal
  cases later with
  | nil => cases equal
  | cons first more => exact matched more change earlier (List.cons_eq_cons.mp equal).2

theorem Matched.emitted (matched : Matched log) (awaits : Awaits log change) :
    Matched (.emitted change :: log) := by
  intro later other earlier equal
  cases later with
  | nil =>
      cases equal
      exact awaits
  | cons first more => exact matched more other earlier (List.cons_eq_cons.mp equal).2

/-- Changes of different paths that are awaited can be emitted one after the other. -/
theorem emit_matched {changes : List FsChange} (matched : Matched log)
    (distinct : (changes.map FsChange.path).Nodup) (awaited : ∀ change ∈ changes, Awaits log change) :
    Matched ((changes.map WatchEvent.emitted).reverse ++ log) ∧
      ∀ change, Awaits ((changes.map WatchEvent.emitted).reverse ++ log) change ↔
        Awaits log change ∧ change.path ∉ changes.map FsChange.path := by
  induction changes generalizing log with
  | nil => exact ⟨matched, fun change => by simp⟩
  | cons first rest ih =>
      obtain ⟨fresh, apart⟩ := List.nodup_cons.mp distinct
      have left : ∀ change ∈ rest, Awaits (.emitted first :: log) change := by
        intro change inside
        apply (awaits_emitted first).mpr
        refine ⟨fun same => fresh ?_, awaited change (List.mem_cons_of_mem _ inside)⟩
        rw [same]
        exact List.mem_map_of_mem inside
      obtain ⟨done, still⟩ := ih (matched.emitted (awaited first (.head _))) apart left
      rw [List.map_cons, List.reverse_cons, List.append_assoc, List.singleton_append]
      refine ⟨done, fun change => ?_⟩
      rw [still, awaits_emitted, List.map_cons, List.mem_cons, not_or, and_comm (a := first.path ≠ change.path),
        and_assoc, ne_comm]

theorem mem_insert {time : Nat} {entry : PendingChange} (inside : entry ∈ insert pending change time) :
    entry ∈ pending ∧ entry.path ≠ change.path ∨ entry.change = change := by
  rcases List.mem_append.mp inside with kept | last
  · exact .inl (by simpa using kept)
  · rw [List.mem_singleton.mp last]
    exact .inr rfl

theorem insert_change {time : Nat} {other : FsChange} :
    other ∈ (insert pending change time).map PendingChange.change ↔
      change = other ∨ change.path ≠ other.path ∧ other ∈ pending.map PendingChange.change := by
  simp only [insert, List.map_append, List.mem_append, List.map_cons, List.map_nil, List.mem_singleton]
  constructor
  · rintro (kept | last)
    · obtain ⟨entry, inside, rfl⟩ := List.mem_map.mp kept
      obtain ⟨before, differs⟩ := List.mem_filter.mp inside
      exact .inr ⟨(of_decide_eq_true differs).symm, List.mem_map_of_mem before⟩
    · exact .inl last.symm
  · rintro (rfl | ⟨differs, before⟩)
    · exact .inr rfl
    · obtain ⟨entry, inside, rfl⟩ := List.mem_map.mp before
      exact .inl (List.mem_map_of_mem (List.mem_filter.mpr ⟨inside, decide_eq_true (Ne.symm differs)⟩))

theorem insert_distinct {time : Nat} (distinct : (pending.map PendingChange.path).Nodup) :
    ((insert pending change time).map PendingChange.path).Nodup := by
  rw [insert, List.map_append, List.nodup_append]
  refine ⟨distinct.sublist (List.filter_sublist.map _), List.nodup_singleton _, ?_⟩
  intro path kept other last
  obtain ⟨entry, inside, rfl⟩ := List.mem_map.mp kept
  rw [List.mem_singleton.mp last]
  exact of_decide_eq_true (List.mem_filter.mp inside).2

theorem Lossless.touch (lossless : s.Lossless) (changeType : FsChangeType) (touched : TouchedPath) :
    (s.touch changeType touched).Lossless := by
  unfold FsWatcher.touch
  split
  · exact lossless
  · exact {
      distinct := insert_distinct lossless.distinct
      awaits := fun running other => by
        rw [insert_change, awaits_seen, lossless.awaits running]
      matched := lossless.matched.seen _ }

theorem Lossless.receive (lossless : s.Lossless) (input : WatcherInput) : (s.receive input).Lossless := by
  cases input with
  | timeout => exact lossless
  | closed => exact lossless
  | event kind paths =>
      simp only [FsWatcher.receive]
      split
      next changeType _ =>
        induction paths generalizing s with
        | nil => exact lossless
        | cons touched rest ih => exact ih (lossless.touch changeType touched)
      next => exact lossless

theorem receive_running (input : WatcherInput) : (s.receive input).running = s.running := by
  cases input with
  | timeout => rfl
  | closed => rfl
  | event kind paths =>
      simp only [receive]
      split
      next changeType _ =>
        induction paths generalizing s with
        | nil => rfl
        | cons touched rest ih =>
            rw [List.foldl_cons, ih, touch]
            split <;> rfl
      next => rfl

/-- What is drained are the changes that are awaited, each once. -/
theorem Lossless.ordered (lossless : s.Lossless) (running : s.running = true) (now : Nat) :
    (((env.order now s.pending).map PendingChange.change).map FsChange.path).Nodup ∧
      ∀ change, change ∈ (env.order now s.pending).map PendingChange.change ↔ Awaits s.log change := by
  have same := env.order_perm now s.pending
  constructor
  · rw [List.map_map]
    exact ((same.map _).nodup_iff).mpr lossless.distinct
  · intro change
    rw [← lossless.awaits running change]
    exact (same.map _).mem_iff

theorem Lossless.drain (lossless : s.Lossless) (running : s.running = true) (now : Nat) (sent : Option Nat) :
    (s.drain env now sent).Lossless := by
  obtain ⟨paths, awaited⟩ := @Lossless.ordered env _ lossless running now
  have whole : Lossless { s.emit ((env.order now s.pending).map PendingChange.change) with pending := [] } := by
    obtain ⟨matched, still⟩ := emit_matched lossless.matched paths fun change => (awaited change).mp
    refine ⟨List.nodup_nil, fun _ change => ?_, matched⟩
    simp only [List.map_nil, List.not_mem_nil, false_iff]
    intro left
    obtain ⟨before, gone⟩ := (still change).mp left
    exact gone (List.mem_map_of_mem ((awaited change).mpr before))
  cases sent with
  | none => exact whole
  | some count =>
      simp only [FsWatcher.drain]
      split
      · have part := List.take_sublist count ((env.order now s.pending).map PendingChange.change)
        have matched := (emit_matched lossless.matched (paths.sublist (part.map _)) fun change inside =>
          (awaited change).mp (part.subset inside)).1
        exact ⟨List.nodup_nil, (fun stays => by cases stays), matched⟩
      · exact whole

theorem Lossless.step {iteration : WatcherIteration} (lossless : s.Lossless)
    (taken : step env s iteration = some next) : next.Lossless := by
  unfold FsWatcher.step at taken
  split at taken
  next allowed =>
    split at taken
    · cases taken
      exact ⟨lossless.distinct, (fun running => by cases running), lossless.matched⟩
    · cases taken
      have received := lossless.receive iteration.input
      have clocked : Lossless { s.receive iteration.input with clock := iteration.now } :=
        ⟨received.distinct, received.awaits, received.matched⟩
      unfold flush
      split
      · exact clocked.drain ((receive_running _).trans allowed.1) _ _
      · exact clocked
  next => cases taken

/-- The maximum wait is exceeded when some path had its latest event that long ago. -/
theorem maxWait_le_oldest (filled : pending ≠ []) {wait : Nat} :
    wait ≤ now - oldestEvent pending now ↔ ∃ entry ∈ pending, wait ≤ now - entry.time := by
  have times : pending.map PendingChange.time ≠ [] := by simpa using filled
  obtain ⟨least, found⟩ := Option.ne_none_iff_exists'.mp (List.min?_eq_none_iff.not.mpr times)
  obtain ⟨inside, below⟩ := List.min?_eq_some_iff.mp found
  rw [oldestEvent, found, Option.getD_some]
  constructor
  · intro waited
    obtain ⟨entry, present, rfl⟩ := List.mem_map.mp inside
    exact ⟨entry, present, waited⟩
  · rintro ⟨entry, present, waited⟩
    have first := below entry.time (List.mem_map_of_mem present)
    omega

/-- The debounce window has expired when all paths had their latest event before it. -/
theorem debounce_le_newest (filled : pending ≠ []) {window : Nat} :
    window ≤ now - newestEvent pending now ↔ ∀ entry ∈ pending, window ≤ now - entry.time := by
  have times : pending.map PendingChange.time ≠ [] := by simpa using filled
  obtain ⟨greatest, found⟩ := Option.ne_none_iff_exists'.mp (List.max?_eq_none_iff.not.mpr times)
  obtain ⟨inside, above⟩ := List.max?_eq_some_iff.mp found
  rw [newestEvent, found, Option.getD_some]
  constructor
  · intro quiet entry present
    have last := above entry.time (List.mem_map_of_mem present)
    omega
  · intro quiet
    obtain ⟨entry, present, equal⟩ := List.mem_map.mp inside
    have early := quiet entry present
    omega

theorem due_iff (filled : pending ≠ []) :
    due env pending now = true ↔ (∃ entry ∈ pending, env.maxWait ≤ now - entry.time) ∨
      ∀ entry ∈ pending, env.debounce ≤ now - entry.time := by
  rw [due, Bool.or_eq_true, decide_eq_true_iff, decide_eq_true_iff, maxWait_le_oldest filled,
    debounce_le_newest filled, or_comm]

/-- Nothing is pending after a drain. -/
theorem drain_pending (now : Nat) (sent : Option Nat) : (s.drain env now sent).pending = [] := by
  cases sent with
  | none => rfl
  | some count =>
      simp only [drain]
      split <;> rfl

/-- An iteration leaves the waits bounded just when it is timely. -/
theorem bounded_iff_of_step {iteration : WatcherIteration} (taken : step env s iteration = some next) :
    next.Bounded env ↔ s.Timely env iteration := by
  unfold step at taken
  split at taken
  next allowed =>
    split at taken
    next closed =>
      cases taken
      exact ⟨fun _ open_ => absurd closed open_, fun _ running => by cases running⟩
    next input opened =>
      cases taken
      unfold flush Timely
      have running := (receive_running (s := s) iteration.input).trans allowed.1
      generalize received : s.receive iteration.input = r at running ⊢
      by_cases filled : r.pending = []
      · simp [Bounded, filled]
      · by_cases flushes : due env r.pending iteration.now = true
        · rw [if_pos ⟨filled, flushes⟩]
          constructor
          · intro _ _ _
            exact (due_iff filled).mp flushes
          · intro _ _ entry inside
            rw [drain_pending] at inside
            cases inside
        · rw [if_neg fun both => flushes both.2]
          rw [due_iff filled] at flushes
          constructor
          · rintro bounded _ ⟨entry, inside, late⟩
            exact absurd (bounded running entry inside) (not_lt.mpr late)
          · intro timely _ entry inside
            by_contra late
            exact flushes (timely opened ⟨entry, inside, not_lt.mp late⟩)
  next => cases taken

/-- In a run of the loop the waits stay bounded if and only if every iteration is timely, and no path is lost. -/
theorem bounded_iff_timely {clock : Nat} {iterations : List WatcherIteration} {last : FsWatcher}
    (run : Runs.Run (step env) (fun _ _ => True) (start clock) iterations last) :
    ((∀ front back middle, iterations = front ++ back →
        Runs.Run (step env) (fun _ _ => True) (start clock) front middle → middle.Bounded env) ↔
      Runs.Run (step env) (Timely env) (start clock) iterations last) ∧ last.Lossless := by
  constructor
  · apply run.every_iff (fun s iteration next taken => bounded_iff_of_step taken)
    intro _ entry inside
    cases inside
  · apply run.invariant (fun s iteration next lossless _ taken => lossless.step taken)
    exact ⟨List.nodup_nil, (fun _ change => by simp [start, Awaits]), fun later change earlier equal => by
      simp [start] at equal⟩

/-- The default configuration, which drains the paths in the order in which they came. -/
def defaultEnv : FsWatcherEnv := ⟨⟨100, 500⟩, fun _ pending => pending, fun _ pending => .refl pending⟩

def modified (path : String) (milliseconds : Nat) : WatcherIteration :=
  ⟨.event .modify [⟨[osText (text path)], false, milliseconds * 1000000⟩], milliseconds * 1000000, none⟩

def waited (milliseconds : Nat) : WatcherIteration := ⟨.timeout, milliseconds * 1000000, none⟩

/-- A path that is touched again before it is emitted, and a path that waits the longest that it can. -/
theorem bounded_iff_timely_bursts : ∃ last,
    Runs.Run (step defaultEnv) (fun _ _ => True) (start 0)
        [modified "a" 0, modified "a" 90, waited 190, modified "b" 200, modified "c" 290, modified "d" 380] last ∧
      last.pending.length = 3 ∧ last.Bounded defaultEnv ∧ last.Lossless := by
  have ran : ∃ last, Runs.Run (step defaultEnv) (Timely defaultEnv) (start 0)
      [modified "a" 0, modified "a" 90, waited 190, modified "b" 200, modified "c" 290, modified "d" 380] last ∧
      last.pending.length = 3 := ⟨_, run_of_checked rfl, by decide⟩
  obtain ⟨last, timely, three⟩ := ran
  have run := timely.mono fun _ _ _ => trivial
  obtain ⟨bounded, lossless⟩ := bounded_iff_timely run
  exact ⟨last, run, three, bounded.mpr timely _ [] last (List.append_nil _).symm run, lossless⟩

/-- A path that is written every ninety milliseconds is pending after more than half a second. -/
theorem bounded_lost : ∃ last,
    Runs.Run (step defaultEnv) (fun _ _ => True) (start 0)
        [modified "a" 0, modified "a" 90, modified "a" 180, modified "a" 270, modified "a" 360, modified "a" 450,
          modified "a" 540] last ∧
      ¬ last.Bounded defaultEnv := by
  refine ⟨_, run_of_after rfl, fun bounded => ?_⟩
  exact absurd (bounded rfl _ (.head _)) (by decide)

end FsWatcher

end AeordbSync

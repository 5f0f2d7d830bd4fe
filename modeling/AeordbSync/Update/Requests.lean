import AeordbSync.Update.Apply

namespace AeordbSync
open Characters

/-- How far the task of a request to apply has come. The digest is the one of the signed envelope. -/
inductive ApplyStage where
  | requested (info : UpdateInfo)
  | planned (url sha256 path : Text)
  | downloading (url sha256 path : Text) (offset : Nat)
  | downloaded (sha256 path : Text)
  | hashing (sha256 path : Text) (seen : Bytes)
  | verified
  | executable
  | ended (result : Except Text Unit)

/-- What the next step of a task meets. -/
inductive ApplyEvent where
  | placed (path : Text)
  | answered (status : Nat)
  | arrived (bytes : Bytes)
  | completed
  | opened
  | read (more : Nat)
  | marked
  | spawned
  | failed (error : Text)

/-- What the others can notice of a task. -/
inductive ApplyDeed where
  | wrote
  | verified
  | spawned
  deriving DecidableEq

/-- A file is written at the position of its handle. A gap is filled with zeros. -/
def writeAt (offset : Nat) (bytes content : Bytes) : Bytes :=
  content.take offset ++ List.replicate (offset - content.length) 0 ++ bytes ++ content.drop (offset + bytes.length)

variable {κ : Type} (libraries : UpdateLibraries κ) (host : UpdateHost)

namespace ApplyStage

/-- The outermost context of an error is its message. -/
def message : ApplyStage → Text → Text
  | planned url _ path, _ => text "download " ++ url ++ text " -> " ++ path
  | downloading url _ path _, _ => text "download " ++ url ++ text " -> " ++ path
  | downloaded _ path, _ => text "sha256 verify failed for " ++ path
  | hashing _ path _, _ => text "sha256 verify failed for " ++ path
  | executable, _ => text "failed to spawn relauncher"
  | _, error => error

def fail (stage : ApplyStage) (error : Text) : ApplyStage := .ended (.error (stage.message error))

/-- The next piece of the file that is being read back. -/
def piece (staged : Option Bytes) (seen : Bytes) (more : Nat) : Bytes :=
  ((staged.getD []).drop seen.length).take (more + 1)

/-- The task after its next step, with the staged file. Some events do not fit a stage. -/
def next (staged : Option Bytes) : ApplyStage → ApplyEvent → Option (ApplyStage × Option Bytes × Option ApplyDeed)
  | .requested info, .placed path => match plannedUpdate libraries host info with
      | .error message => some (.ended (.error message), staged, none)
      | .ok (url, sha256) => some (.planned url sha256 path, staged, none)
  | .requested info, .failed error => match plannedUpdate libraries host info with
      | .error message => some (.ended (.error message), staged, none)
      | .ok _ => some (.ended (.error error), staged, none)
  | .planned url sha256 path, .answered status =>
      if isSuccess status = true then some (.downloading url sha256 path 0, some [], some .wrote)
      else some ((planned url sha256 path).fail [], staged, none)
  | .downloading url sha256 path offset, .arrived bytes =>
      some (.downloading url sha256 path (offset + bytes.length), staged.map (writeAt offset bytes), some .wrote)
  | .downloading _ sha256 path _, .completed => some (.downloaded sha256 path, staged, none)
  | .downloaded sha256 path, .opened =>
      if staged = none then some ((downloaded sha256 path).fail [], staged, none)
      else some (.hashing sha256 path [], staged, none)
  | .hashing sha256 path seen, .read more =>
      if piece staged seen more ≠ [] then some (.hashing sha256 path (seen ++ piece staged seen more), staged, none)
      else if eqIgnoreAsciiCase (libraries.sha256 seen) sha256 = true then some (.verified, staged, some .verified)
      else some ((hashing sha256 path seen).fail [], staged, none)
  | .verified, .marked => some (.executable, staged, none)
  | .executable, .spawned => some (.ended (.ok ()), staged, some .spawned)
  | .ended _, .failed _ => none
  | stage, .failed error => some (stage.fail error, staged, none)
  | _, _ => none

/-- The event makes the update fail. -/
def fails (staged : Option Bytes) : ApplyStage → ApplyEvent → Bool
  | .requested info, .placed _ => match plannedUpdate libraries host info with
      | .error _ => true
      | .ok _ => false
  | .planned _ _ _, .answered status => !isSuccess status
  | .downloaded _ _, .opened => staged.isNone
  | .hashing sha256 _ seen, .read more =>
      decide (piece staged seen more = []) && !eqIgnoreAsciiCase (libraries.sha256 seen) sha256
  | .ended _, .failed _ => false
  | _, .failed _ => true
  | _, _ => false

def writes : ApplyStage → ApplyEvent → Bool
  | .planned _ _ _, .answered status => isSuccess status
  | .downloading _ _ _ _, .arrived _ => true
  | _, _ => false

/-- The contents of the staged file are being verified, or a relauncher is going to move them. -/
def holds : ApplyStage → Bool
  | .hashing _ _ _ => true
  | .verified => true
  | .executable => true
  | .ended (.ok ()) => true
  | _ => false

end ApplyStage

/-- The requests of the update interface share the snapshot of the last poll and the staged file. The process may
have exited because of one of them. -/
structure UpdateRequests where
  info : UpdateInfo
  applies : List ApplyStage
  staged : Option Bytes
  deeds : List (Nat × ApplyDeed)
  exited : Option (Option Nat)

inductive RequestAction where
  | updateCheck (reply : VersionReply) (now : Int)
  | updateApply
  | task (index : Nat) (event : ApplyEvent)
  | exit (index : Nat)
  | quit

namespace UpdateRequests

def initial (staged : Option Bytes) : UpdateRequests := ⟨host.newState, [], staged, [], none⟩

def proceed (s : UpdateRequests) (index : Nat) (event : ApplyEvent) : UpdateRequests :=
  match s.applies[index]? with
  | none => s
  | some stage => match stage.next libraries host s.staged event with
      | none => s
      | some (later, staged, deed) =>
          { s with
            applies := s.applies.set index later
            staged := staged
            deeds := (deed.map (Prod.mk index)).toList ++ s.deeds }

/-- Half a second after its task has ended, whatever the result, a request to apply exits the process. -/
def step (s : UpdateRequests) (action : RequestAction) : UpdateRequests :=
  if s.exited.isSome then s
  else match action with
  | .updateCheck reply now => { s with info := host.checkOnce libraries s.info reply now }
  | .updateApply => if s.info.available = true then { s with applies := s.applies ++ [.requested s.info] } else s
  | .task index event => s.proceed libraries host index event
  | .exit index => match s.applies[index]? with
      | some (.ended _) => { s with exited := some (some index) }
      | _ => s
  | .quit => { s with exited := some none }

def run (s : UpdateRequests) (actions : List RequestAction) : UpdateRequests :=
  actions.foldl (step libraries host) s

/-- The staged file is only written while no other task has begun to verify it. -/
def Careful (s : UpdateRequests) : RequestAction → Prop
  | .task index event => (s.applies[index]?.any fun stage => stage.writes event) = true →
      ∀ other < s.applies.length, other ≠ index → (s.applies[other]?.any ApplyStage.holds) = false
  | _ => True

instance (s : UpdateRequests) : (action : RequestAction) → Decidable (s.Careful action)
  | .updateCheck _ _ => inferInstanceAs (Decidable True)
  | .updateApply => inferInstanceAs (Decidable True)
  | .task _ _ => inferInstanceAs (Decidable (_ → ∀ other < s.applies.length, other ≠ _ → _))
  | .exit _ => inferInstanceAs (Decidable True)
  | .quit => inferInstanceAs (Decidable True)

def CarefulRun (s : UpdateRequests) : List RequestAction → Prop
  | [] => True
  | action :: later => s.Careful action ∧ CarefulRun (s.step libraries host action) later

instance decidableCarefulRun :
    (s : UpdateRequests) → (actions : List RequestAction) → Decidable (s.CarefulRun libraries host actions)
  | _, [] => inferInstanceAs (Decidable True)
  | s, action :: later =>
      have := decidableCarefulRun (s.step libraries host action) later
      inferInstanceAs (Decidable (_ ∧ _))

/-- The task that a step makes fail. -/
def failing (s : UpdateRequests) : RequestAction → List Nat
  | .task index event =>
      if s.exited = none ∧ (s.applies[index]?.any fun stage => stage.fails libraries host s.staged event) = true then
        [index]
      else []
  | _ => []

/-- The tasks that meet a failure in a run. -/
def failures (s : UpdateRequests) : List RequestAction → List Nat
  | [] => []
  | action :: later => s.failing libraries host action ++ failures (s.step libraries host action) later

end UpdateRequests

/-- No other task has written since the verification. -/
def KeptSinceVerified (deeds : List (Nat × ApplyDeed)) (index : Nat) : Prop :=
  ∀ newer older, deeds = newer ++ (index, ApplyDeed.verified) :: older →
    ∀ other, other ≠ index → (other, ApplyDeed.wrote) ∉ newer

/-- When the process exits, what a relauncher is going to move is as it was verified. -/
def UpdateRequests.InstallsVerified (s : UpdateRequests) : Prop :=
  s.exited.isSome = true → ∀ index, (index, ApplyDeed.spawned) ∈ s.deeds →
    (∃ bytes, s.staged = some bytes ∧ Authentic libraries host bytes) ∧ KeptSinceVerified s.deeds index

/-- Only a task that has spawned its relauncher exits the process. -/
def UpdateRequests.ExitsForRelauncher (s : UpdateRequests) : Prop :=
  ∀ index, s.exited = some (some index) → (index, ApplyDeed.spawned) ∈ s.deeds

section

variable {libraries host}

/-- The digest is one that a signed envelope of a newer version gives for the platform. -/
def Listed (libraries : UpdateLibraries κ) (host : UpdateHost) (sha256 : Text) : Prop :=
  ∃ keyId envelope manifest version entry, Signed libraries host.trust keyId envelope manifest ∧
    manifest.version = some version ∧ isNewer version host.currentVersion = true ∧
    manifest.platforms.lookup host.platform = some entry ∧ entry.sha256 = sha256

theorem Listed.authentic {sha256 : Text} (listed : Listed libraries host sha256) {bytes : Bytes}
    (same : eqIgnoreAsciiCase (libraries.sha256 bytes) sha256 = true) : Authentic libraries host bytes := by
  obtain ⟨keyId, envelope, manifest, version, entry, signed, stated, newer, listed, rfl⟩ := listed
  exact ⟨keyId, envelope, manifest, version, entry, signed, stated, newer, listed, same⟩

theorem plannedUpdate_listed {info : UpdateInfo} (newer : info.Newer host) (available : info.available = true)
    {url sha256 : Text} (planned : plannedUpdate libraries host info = .ok (url, sha256)) :
    Listed libraries host sha256 := by
  obtain ⟨keyId, envelope, manifest, version, entry, announced, signed, stated, listed, rfl⟩ := plannedUpdate_ok planned
  obtain ⟨other, latest, fresh⟩ := newer available
  rw [announced, Option.some.injEq] at latest
  subst latest
  exact ⟨keyId, envelope, manifest, version, entry, signed, stated, fresh, listed, rfl⟩

namespace ApplyStage

/-- What a task knows of its digest and of the staged file. -/
def Sound (libraries : UpdateLibraries κ) (host : UpdateHost) (staged : Option Bytes) : ApplyStage → Prop
  | .requested info => info.Newer host ∧ info.available = true
  | .planned _ sha256 _ => Listed libraries host sha256
  | .downloading _ sha256 _ _ => Listed libraries host sha256
  | .downloaded sha256 _ => Listed libraries host sha256
  | .hashing sha256 _ seen => Listed libraries host sha256 ∧ ∃ bytes, staged = some bytes ∧ seen <+: bytes
  | .verified => ∃ bytes, staged = some bytes ∧ Authentic libraries host bytes
  | .executable => ∃ bytes, staged = some bytes ∧ Authentic libraries host bytes
  | .ended (.ok ()) => ∃ bytes, staged = some bytes ∧ Authentic libraries host bytes
  | .ended (.error _) => True

/-- A task that does not hold the staged file knows nothing of its contents. -/
theorem Sound.other {staged other : Option Bytes} {stage : ApplyStage} (sound : stage.Sound libraries host staged)
    (free : stage.holds = false) : stage.Sound libraries host other := by
  cases stage with
  | requested info => exact sound
  | planned url sha256 path => exact sound
  | downloading url sha256 path offset => exact sound
  | downloaded sha256 path => exact sound
  | hashing sha256 path seen => cases free
  | verified => cases free
  | executable => cases free
  | ended result =>
      cases result with
      | error error => trivial
      | ok done => cases free

theorem append_piece_prefix {bytes seen : Bytes} (front : seen <+: bytes) (more : Nat) :
    seen ++ piece (some bytes) seen more <+: bytes := by
  obtain ⟨rest, rfl⟩ := front
  rw [piece, Option.getD_some, List.drop_left]
  exact (List.prefix_append_right_inj seen).mpr (List.take_prefix _ rest)

/-- An empty piece is the end of the file. -/
theorem eq_of_piece_eq_nil {bytes seen : Bytes} {more : Nat} (front : seen <+: bytes)
    (done : piece (some bytes) seen more = []) : seen = bytes := by
  obtain ⟨rest, rfl⟩ := front
  rw [piece, Option.getD_some, List.drop_left] at done
  cases rest with
  | nil => rw [List.append_nil]
  | cons byte rest => cases done

theorem Sound.next {staged after : Option Bytes} {stage later : ApplyStage} {event : ApplyEvent}
    {deed : Option ApplyDeed} (sound : stage.Sound libraries host staged)
    (stepped : stage.next libraries host staged event = some (later, after, deed)) :
    later.Sound libraries host after := by
  unfold ApplyStage.next at stepped
  split at stepped
  · split at stepped
    · cases stepped
      trivial
    next url sha256 planned =>
      cases stepped
      exact plannedUpdate_listed sound.1 sound.2 planned
  · split at stepped <;> cases stepped <;> trivial
  · split at stepped
    · cases stepped
      exact sound
    · cases stepped
      trivial
  · cases stepped
    exact sound
  · cases stepped
    exact sound
  · split at stepped
    · cases stepped
      trivial
    next present =>
      cases stepped
      obtain ⟨bytes, rfl⟩ := Option.ne_none_iff_exists'.mp present
      exact ⟨sound, bytes, rfl, List.nil_prefix⟩
  · obtain ⟨listed, bytes, rfl, front⟩ := sound
    split at stepped
    · cases stepped
      exact ⟨listed, bytes, rfl, append_piece_prefix front _⟩
    next done =>
      split at stepped
      next same =>
        cases stepped
        rw [eq_of_piece_eq_nil front (not_not.mp done)] at same
        exact ⟨bytes, rfl, listed.authentic same⟩
      · cases stepped
        trivial
  · cases stepped
    exact sound
  · cases stepped
    exact sound
  · cases stepped
  · cases stepped
    trivial
  · cases stepped

/-- The verification of the task is over. -/
def passed : ApplyStage → Bool
  | .verified => true
  | .executable => true
  | .ended _ => true
  | _ => false

/-- Each step writes the file, verifies it, spawns the relauncher, or changes nothing that others can notice. -/
theorem next_cases {staged after : Option Bytes} {stage later : ApplyStage} {event : ApplyEvent}
    {deed : Option ApplyDeed} (stepped : stage.next libraries host staged event = some (later, after, deed)) :
    deed = some .wrote ∧ stage.writes event = true ∧ stage.passed = false ∧ later.passed = false ∨
    deed = some .verified ∧ after = staged ∧ stage.passed = false ∧ later = .verified ∨
    deed = some .spawned ∧ after = staged ∧ stage = .executable ∧ later = .ended (.ok ()) ∨
    deed = none ∧ after = staged ∧ (stage.passed = true → later.passed = true) ∧ later ≠ .ended (.ok ()) ∧
      (later.passed = true → later.holds = true → stage.passed = true ∧ stage.holds = true) := by
  unfold next at stepped
  split at stepped
  · split at stepped <;> cases stepped <;> simp [passed, holds]
  · split at stepped <;> cases stepped <;> simp [passed, holds]
  · split at stepped <;> cases stepped <;> simp_all [passed, holds, fail, writes]
  · cases stepped
    simp [passed, writes]
  · cases stepped
    simp [passed]
  · split at stepped <;> cases stepped <;> simp [passed, holds, fail]
  · split at stepped
    · cases stepped
      simp [passed]
    · split at stepped <;> cases stepped <;> simp [passed, holds, fail]
  · cases stepped
    simp [passed, holds]
  · cases stepped
    simp [passed]
  · cases stepped
  · cases stepped
    simp [passed, holds, fail]
  · cases stepped

theorem not_ended_of_next {staged : Option Bytes} {stage : ApplyStage} {event : ApplyEvent}
    {later : ApplyStage × Option Bytes × Option ApplyDeed} (stepped : stage.next libraries host staged event = some later)
    (result : Except Text Unit) : stage ≠ .ended result := by
  rintro rfl
  cases event <;> cases stepped

/-- A step fails the task exactly when it meets one of the failures. -/
theorem failed_next {staged after : Option Bytes} {stage later : ApplyStage} {event : ApplyEvent}
    {deed : Option ApplyDeed} (stepped : stage.next libraries host staged event = some (later, after, deed)) :
    (∃ error, later = .ended (.error error)) ↔ stage.fails libraries host staged event = true := by
  unfold next at stepped
  split at stepped
  next info path =>
    split at stepped
    next planned =>
      cases stepped
      simp [fails, planned]
    next planned =>
      cases stepped
      simp [fails, planned]
  · split at stepped <;> cases stepped <;> simp [fails]
  next url sha256 path status =>
    split at stepped
    next success =>
      cases stepped
      simp [fails, success]
    next success =>
      cases stepped
      simp [fails, fail, success]
  · cases stepped
    simp [fails]
  · cases stepped
    simp [fails]
  next sha256 path =>
    split at stepped
    next missing =>
      cases stepped
      simp [fails, fail, missing]
    next present =>
      cases stepped
      simp [fails, present]
  next sha256 path seen more =>
    split at stepped
    next some =>
      cases stepped
      simp [fails, some]
    next done =>
      split at stepped
      next same =>
        cases stepped
        simp [fails, same]
      next different =>
        cases stepped
        rw [not_not] at done
        simp [fails, fail, done, different]
  · cases stepped
    simp [fails]
  · cases stepped
    simp [fails]
  · cases stepped
  next unended =>
    cases stepped
    cases stage <;> simp_all [fails, fail]
  · cases stepped

theorem next_of_fails {staged : Option Bytes} {stage : ApplyStage} {event : ApplyEvent}
    (failing : stage.fails libraries host staged event = true) :
    (stage.next libraries host staged event).isSome = true := by
  unfold next
  split
  · split <;> rfl
  · split <;> rfl
  · split <;> rfl
  · rfl
  · rfl
  · split <;> rfl
  · split
    · rfl
    · split <;> rfl
  · rfl
  · rfl
  · cases failing
  · rfl
  -- What fits no stage fails no task.
  · cases stage <;> cases event <;> grind [fails]

/-- The deeds of a task say where it is. -/
structure Recorded (deeds : List (Nat × ApplyDeed)) (index : Nat) (stage : ApplyStage) : Prop where
  verified : (index, .verified) ∈ deeds → stage.passed = true
  spawned : (index, .spawned) ∈ deeds ↔ stage = .ended (.ok ())

/-- Since a task has verified the file, no other task has written it. -/
def Calm (deeds : List (Nat × ApplyDeed)) (index : Nat) (stage : ApplyStage) : Prop :=
  stage.passed = true → stage.holds = true → KeptSinceVerified deeds index

theorem keptSinceVerified_cons {deeds : List (Nat × ApplyDeed)} {index other : Nat} {deed : ApplyDeed}
    (calm : KeptSinceVerified deeds index) (harmless : other ≠ index → deed ≠ .wrote) :
    KeptSinceVerified ((other, deed) :: deeds) index := by
  intro newer older split writer different written
  cases newer with
  | nil => cases written
  | cons first newer =>
      obtain ⟨rfl, remains⟩ := List.cons.inj split
      rcases List.mem_cons.mp written with same | later
      · obtain ⟨rfl, rfl⟩ := Prod.mk.inj same
        exact harmless different rfl
      · exact calm newer older remains writer different later

theorem keptSinceVerified_verified {deeds : List (Nat × ApplyDeed)} {index : Nat} (fresh : (index, .verified) ∉ deeds) :
    KeptSinceVerified ((index, .verified) :: deeds) index := by
  intro newer older split writer _ written
  cases newer with
  | nil => cases written
  | cons first newer =>
      obtain ⟨-, split⟩ := List.cons.inj split
      apply fresh
      rw [split]
      exact List.mem_append_right newer List.mem_cons_self

section

variable {deeds : List (Nat × ApplyDeed)} {index actor : Nat} {staged after : Option Bytes} {stage later : ApplyStage}
  {event : ApplyEvent} {deed : Option ApplyDeed}

theorem Recorded.own (recorded : stage.Recorded deeds index)
    (stepped : stage.next libraries host staged event = some (later, after, deed)) :
    later.Recorded ((deed.map (Prod.mk index)).toList ++ deeds) index := by
  have unspawned : (index, .spawned) ∉ deeds :=
    fun inside => not_ended_of_next stepped _ (recorded.spawned.mp inside)
  rcases next_cases stepped with ⟨rfl, -, before, now⟩ | ⟨rfl, -, before, rfl⟩ | ⟨rfl, -, rfl, rfl⟩ |
    ⟨rfl, -, forward, running, back⟩
  · refine ⟨?_, ?_, ?_⟩
    · intro inside
      have old : (index, ApplyDeed.verified) ∈ deeds := by simpa using inside
      exact absurd (recorded.verified old) (by rw [before]; decide)
    · intro inside
      exact absurd (show (index, ApplyDeed.spawned) ∈ deeds by simpa using inside) unspawned
    · rintro rfl
      cases now
  · refine ⟨fun _ => rfl, ?_, nofun⟩
    intro inside
    exact absurd (show (index, ApplyDeed.spawned) ∈ deeds by simpa using inside) unspawned
  · refine ⟨fun _ => rfl, ?_⟩
    simp
  · refine ⟨fun inside => forward (recorded.verified inside), ?_, ?_⟩
    · exact fun inside => absurd inside unspawned
    · exact fun finished => absurd finished running

theorem mem_other (different : actor ≠ index) (mine : ApplyDeed) :
    (index, mine) ∈ (deed.map (Prod.mk actor)).toList ++ deeds ↔ (index, mine) ∈ deeds := by
  cases deed with
  | none => rfl
  | some deed => simp [Ne.symm different]

theorem Recorded.other (recorded : stage.Recorded deeds index) (different : actor ≠ index) :
    stage.Recorded ((deed.map (Prod.mk actor)).toList ++ deeds) index :=
  ⟨fun inside => recorded.verified ((mem_other different _).mp inside), (mem_other different _).trans recorded.spawned⟩

theorem Calm.own (calm : stage.Calm deeds index) (recorded : stage.Recorded deeds index)
    (stepped : stage.next libraries host staged event = some (later, after, deed)) :
    later.Calm ((deed.map (Prod.mk index)).toList ++ deeds) index := by
  rcases next_cases stepped with ⟨rfl, -, before, now⟩ | ⟨rfl, -, before, rfl⟩ | ⟨rfl, -, rfl, rfl⟩ |
    ⟨rfl, -, forward, running, back⟩
  · intro passed
    rw [now] at passed
    cases passed
  · intro _ _
    apply keptSinceVerified_verified
    intro old
    exact absurd (recorded.verified old) (by rw [before]; decide)
  · intro _ _
    exact keptSinceVerified_cons (calm rfl rfl) fun different => absurd rfl different
  · intro passed holds
    obtain ⟨before, held⟩ := back passed holds
    exact calm before held

/-- A deed of another task does not disturb, unless it writes while the file is held. -/
theorem Calm.other (calm : stage.Calm deeds index) (harmless : stage.holds = true → deed ≠ some .wrote) :
    stage.Calm ((deed.map (Prod.mk actor)).toList ++ deeds) index := by
  cases deed with
  | none => exact calm
  | some deed =>
      intro passed holds
      apply keptSinceVerified_cons (calm passed holds)
      rintro - rfl
      exact harmless holds rfl

end

end ApplyStage

namespace UpdateRequests

variable {s : UpdateRequests}

/-- Every task is where its deeds say. -/
structure Recorded (s : UpdateRequests) : Prop where
  tasks : ∀ (index : Nat) stage, s.applies[index]? = some stage → stage.Recorded s.deeds index
  known : ∀ deed ∈ s.deeds, deed.1 < s.applies.length

/-- The digests are listed, and the staged file of a task that holds it is what the task says. -/
structure Sound (libraries : UpdateLibraries κ) (host : UpdateHost) (s : UpdateRequests) : Prop where
  info : s.info.Newer host
  tasks : ∀ (index : Nat) stage, s.applies[index]? = some stage →
    stage.Sound libraries host s.staged ∧ stage.Calm s.deeds index

theorem recorded_requested {deeds : List (Nat × ApplyDeed)} {index : Nat} (unknown : ∀ deed ∈ deeds, deed.1 ≠ index)
    (info : UpdateInfo) : (ApplyStage.requested info).Recorded deeds index := by
  refine ⟨fun inside => absurd rfl (unknown _ inside), fun inside => absurd rfl (unknown _ inside), ?_⟩
  intro impossible
  cases impossible

/-- A task of a longer list is one of the list, or the last. -/
theorem getElem?_concat {stages : List ApplyStage} {index : Nat} {stage last : ApplyStage}
    (present : (stages ++ [last])[index]? = some stage) :
    stages[index]? = some stage ∨ index = stages.length ∧ stage = last := by
  rcases Nat.lt_trichotomy index stages.length with old | rfl | beyond
  · rw [List.getElem?_append_left old] at present
    exact .inl present
  · rw [List.getElem?_concat_length, Option.some.injEq] at present
    exact .inr ⟨rfl, present.symm⟩
  · rw [List.getElem?_eq_none (by rw [List.length_append]; exact beyond)] at present
    cases present

theorem Recorded.apply (recorded : s.Recorded) :
    ({ s with applies := s.applies ++ [.requested s.info] } : UpdateRequests).Recorded := by
  constructor
  · intro index stage present
    rcases getElem?_concat present with old | ⟨rfl, rfl⟩
    · exact recorded.tasks index stage old
    · exact recorded_requested (fun deed inside => (recorded.known deed inside).ne) s.info
  · intro deed inside
    rw [List.length_append]
    exact (recorded.known deed inside).trans_le (Nat.le_add_right _ _)

theorem Sound.apply (sound : s.Sound libraries host) (available : s.info.available = true) :
    ({ s with applies := s.applies ++ [.requested s.info] } : UpdateRequests).Sound libraries host := by
  refine ⟨sound.info, ?_⟩
  intro index stage present
  rcases getElem?_concat present with old | ⟨-, rfl⟩
  · exact sound.tasks index stage old
  · exact ⟨⟨sound.info, available⟩, nofun⟩

theorem Recorded.proceed (recorded : s.Recorded) (index : Nat) (event : ApplyEvent) :
    (s.proceed libraries host index event).Recorded := by
  unfold UpdateRequests.proceed
  split
  · exact recorded
  next stage present =>
    split
    · exact recorded
    next later after deed stepped =>
      have inside : index < s.applies.length := (List.getElem?_eq_some_iff.mp present).1
      constructor
      · intro other found task
        by_cases same : index = other
        · subst same
          dsimp only at task
          rw [List.getElem?_set_self inside, Option.some.injEq] at task
          subst task
          exact (recorded.tasks index stage present).own stepped
        · dsimp only at task
          rw [List.getElem?_set_ne same] at task
          exact (recorded.tasks other found task).other same
      · intro one member
        rw [List.length_set]
        rcases List.mem_append.mp member with new | old
        · cases deed with
          | none => cases new
          | some deed =>
              rw [List.mem_singleton.mp new]
              exact inside
        · exact recorded.known one old

theorem Sound.proceed (sound : s.Sound libraries host) (recorded : s.Recorded) {index : Nat} {event : ApplyEvent}
    (careful : s.Careful (.task index event)) : (s.proceed libraries host index event).Sound libraries host := by
  unfold UpdateRequests.proceed
  split
  · exact sound
  next stage present =>
    split
    · exact sound
    next later after deed stepped =>
      have inside : index < s.applies.length := (List.getElem?_eq_some_iff.mp present).1
      refine ⟨sound.info, ?_⟩
      intro other found task
      dsimp only at task
      by_cases same : index = other
      · subst same
        rw [List.getElem?_set_self inside, Option.some.injEq] at task
        subst task
        obtain ⟨known, calm⟩ := sound.tasks index stage present
        exact ⟨known.next stepped, calm.own (recorded.tasks index stage present) stepped⟩
      · rw [List.getElem?_set_ne same] at task
        obtain ⟨known, calm⟩ := sound.tasks other found task
        by_cases writes : stage.writes event = true
        · have acting : (s.applies[index]?.any fun stage => stage.writes event) = true := by
            rw [present]
            exact writes
          have free := careful acting other (List.getElem?_eq_some_iff.mp task).1 (Ne.symm same)
          rw [task] at free
          have free : found.holds = false := free
          refine ⟨known.other free, ?_⟩
          intro _ holds
          rw [free] at holds
          cases holds
        · have kept : after = s.staged ∧ deed ≠ some .wrote := by
            rcases ApplyStage.next_cases stepped with ⟨-, wrote, -⟩ | ⟨rfl, rfl, -⟩ | ⟨rfl, rfl, -⟩ | ⟨rfl, rfl, -⟩
            · exact absurd wrote writes
            · exact ⟨rfl, nofun⟩
            · exact ⟨rfl, nofun⟩
            · exact ⟨rfl, nofun⟩
          obtain ⟨rfl, harmless⟩ := kept
          exact ⟨known, calm.other fun _ => harmless⟩

theorem Recorded.step (recorded : s.Recorded) (action : RequestAction) : (s.step libraries host action).Recorded := by
  unfold UpdateRequests.step
  split
  · exact recorded
  · split
    · exact ⟨recorded.tasks, recorded.known⟩
    · split
      · exact recorded.apply
      · exact recorded
    · exact recorded.proceed _ _
    · split
      · exact ⟨recorded.tasks, recorded.known⟩
      · exact recorded
    · exact ⟨recorded.tasks, recorded.known⟩

theorem Sound.step (sound : s.Sound libraries host) (recorded : s.Recorded) {action : RequestAction}
    (careful : s.Careful action) : (s.step libraries host action).Sound libraries host := by
  unfold UpdateRequests.step
  split
  · exact sound
  · split
    · exact ⟨newer_checkOnce libraries host s.info _ _, sound.tasks⟩
    · split
      next available => exact sound.apply available
      · exact sound
    · exact sound.proceed recorded careful
    · split
      · exact ⟨sound.info, sound.tasks⟩
      · exact sound
    · exact ⟨sound.info, sound.tasks⟩

theorem Recorded.run (recorded : s.Recorded) (libraries : UpdateLibraries κ) (host : UpdateHost)
    (actions : List RequestAction) : (s.run libraries host actions).Recorded := by
  induction actions generalizing s with
  | nil => exact recorded
  | cons action later ih => exact ih (recorded.step action)

theorem Sound.run (sound : s.Sound libraries host) (recorded : s.Recorded) {actions : List RequestAction}
    (careful : s.CarefulRun libraries host actions) : (s.run libraries host actions).Sound libraries host := by
  induction actions generalizing s with
  | nil => exact sound
  | cons action later ih => exact ih (sound.step recorded careful.1) (recorded.step action) careful.2

theorem recorded_initial (host : UpdateHost) (staged : Option Bytes) : (initial host staged).Recorded := by
  constructor
  · intro index stage present
    simp [initial] at present
  · intro deed inside
    simp [initial] at inside

theorem sound_initial (libraries : UpdateLibraries κ) (host : UpdateHost) (staged : Option Bytes) : (initial host staged).Sound libraries host := by
  constructor
  · intro available
    cases available
  · intro index stage present
    simp [initial] at present

def HasFailed (s : UpdateRequests) (index : Nat) : Prop :=
  ∃ error, s.applies[index]? = some (.ended (.error error))

/-- The process was exited by a task that had ended. -/
def ExitedAtEnd (s : UpdateRequests) : Prop :=
  ∀ index, s.exited = some (some index) → ∃ result, s.applies[index]? = some (.ended result)

theorem hasFailed_proceed (index place : Nat) (event : ApplyEvent) :
    (s.proceed libraries host index event).HasFailed place ↔ s.HasFailed place ∨ place = index ∧
      (s.applies[index]?.any fun stage => stage.fails libraries host s.staged event) = true := by
  unfold UpdateRequests.proceed
  split
  next absent => simp [absent]
  next stage present =>
    rw [present, Option.any_some]
    split
    next unfit =>
      constructor
      · exact .inl
      · rintro (old | ⟨-, failing⟩)
        · exact old
        · have fits := ApplyStage.next_of_fails failing
          rw [unfit] at fits
          cases fits
    next later after deed stepped =>
      have inside : index < s.applies.length := (List.getElem?_eq_some_iff.mp present).1
      rw [← ApplyStage.failed_next stepped]
      by_cases same : place = index
      · subst same
        have before : ¬ s.HasFailed place := by
          rintro ⟨error, failed⟩
          rw [present, Option.some.injEq] at failed
          exact ApplyStage.not_ended_of_next stepped _ failed
        simp only [HasFailed, List.getElem?_set_self inside, Option.some.injEq, true_and]
        exact (or_iff_right before).symm
      · simp only [HasFailed, List.getElem?_set_ne (Ne.symm same), same, false_and, or_false]

theorem hasFailed_step (action : RequestAction) (place : Nat) :
    (s.step libraries host action).HasFailed place ↔ s.HasFailed place ∨ place ∈ s.failing libraries host action := by
  unfold UpdateRequests.step
  split
  next gone =>
    have running : s.exited ≠ none := Option.isSome_iff_ne_none.mp gone
    cases action <;> simp [failing, running]
  next running =>
    rw [Option.not_isSome_iff_eq_none] at running
    split
    · simp [HasFailed, failing]
    · split
      next available =>
        simp only [failing, List.not_mem_nil, or_false]
        constructor
        · rintro ⟨error, failed⟩
          rcases getElem?_concat failed with old | ⟨-, new⟩
          · exact ⟨error, old⟩
          · cases new
        · rintro ⟨error, failed⟩
          refine ⟨error, ?_⟩
          rw [List.getElem?_append_left (List.getElem?_eq_some_iff.mp failed).1]
          exact failed
      · simp [failing]
    · rw [hasFailed_proceed]
      apply or_congr_right
      simp only [failing, running, true_and]
      split <;> simp_all
    · split <;> simp [HasFailed, failing]
    · simp [HasFailed, failing]

theorem hasFailed_run (actions : List RequestAction) (place : Nat) :
    (s.run libraries host actions).HasFailed place ↔ s.HasFailed place ∨ place ∈ s.failures libraries host actions := by
  induction actions generalizing s with
  | nil => simp [run, failures]
  | cons action later ih =>
      show ((s.step libraries host action).run libraries host later).HasFailed place ↔ _
      rw [ih, hasFailed_step, failures, List.mem_append, or_assoc]

theorem proceed_exited (index : Nat) (event : ApplyEvent) :
    (s.proceed libraries host index event).exited = s.exited := by
  unfold UpdateRequests.proceed
  split
  · rfl
  · split <;> rfl

theorem ExitedAtEnd.step (ended : s.ExitedAtEnd) (action : RequestAction) : (s.step libraries host action).ExitedAtEnd := by
  unfold UpdateRequests.step
  split
  · exact ended
  next running =>
    rw [Option.not_isSome_iff_eq_none] at running
    have alive : ∀ {next : UpdateRequests}, next.exited = none → next.ExitedAtEnd := by
      intro next still index exited
      rw [still] at exited
      cases exited
    split
    · exact alive running
    · split
      · exact alive running
      · exact ended
    · exact alive ((proceed_exited _ _).trans running)
    · split
      next result present =>
        intro index exited
        cases exited
        exact ⟨result, present⟩
      · exact ended
    · intro index exited
      cases exited

theorem exitedAtEnd_initial (host : UpdateHost) (staged : Option Bytes) : (initial host staged).ExitedAtEnd := by
  intro index exited
  cases exited

theorem ExitedAtEnd.run (ended : s.ExitedAtEnd) (actions : List RequestAction) :
    (s.run libraries host actions).ExitedAtEnd := by
  induction actions generalizing s with
  | nil => exact ended
  | cons action later ih => exact ih (ended.step action)

end UpdateRequests

end

/-- When the process exits, the relaunchers move bytes that a signed envelope lists, as they were verified, if the
staged file is never written while another task verifies it or has verified it. -/
theorem exits_installsVerified (staged : Option Bytes) (actions : List RequestAction)
    (careful : (UpdateRequests.initial host staged).CarefulRun libraries host actions) :
    ((UpdateRequests.initial host staged).run libraries host actions).InstallsVerified libraries host := by
  intro _ index spawned
  have first := UpdateRequests.recorded_initial host staged
  have recorded := first.run libraries host actions
  have sound := (UpdateRequests.sound_initial libraries host staged).run first careful
  have inside := recorded.known _ spawned
  have present := List.getElem?_eq_getElem inside
  have ended := (recorded.tasks index _ present).spawned.mp spawned
  rw [ended] at present
  obtain ⟨authentic, calm⟩ := sound.tasks index _ present
  exact ⟨authentic, calm rfl rfl⟩

/-- The process only exits for a relauncher exactly when the task that exits it has met no failure. -/
theorem exits_iff_unfailed (staged : Option Bytes) (actions : List RequestAction) :
    ((UpdateRequests.initial host staged).run libraries host actions).ExitsForRelauncher ↔
      ∀ index, ((UpdateRequests.initial host staged).run libraries host actions).exited = some (some index) →
        index ∉ (UpdateRequests.initial host staged).failures libraries host actions := by
  have recorded := (UpdateRequests.recorded_initial host staged).run libraries host actions
  have atEnd : ((UpdateRequests.initial host staged).run libraries host actions).ExitedAtEnd :=
    (UpdateRequests.exitedAtEnd_initial host staged).run actions
  apply forall₂_congr
  intro index exited
  obtain ⟨result, present⟩ := atEnd index exited
  have failed : ((UpdateRequests.initial host staged).run libraries host actions).HasFailed index ↔ _ :=
    UpdateRequests.hasFailed_run actions index
  have fresh : ¬ (UpdateRequests.initial host staged).HasFailed index := by
    rintro ⟨error, impossible⟩
    cases impossible
  rw [or_iff_right fresh] at failed
  rw [(recorded.tasks index _ present).spawned, ← failed, UpdateRequests.HasFailed, present]
  cases result with
  | ok done => simp
  | error error => simp

/-- A step that the environment can make fail. -/
def ApplyEvent.unless (event : ApplyEvent) : Option Text → ApplyEvent
  | some error => .failed error
  | none => event

/-- What a task meets that is alone with its environment. -/
def ApplyEnvironment.events (environment : ApplyEnvironment) (info : UpdateInfo) : List ApplyEvent :=
  match environment.stagedPath with
  | .error error => [.failed error]
  | .ok path => .placed path :: match plannedUpdate libraries host info with
      | .error _ => []
      | .ok (url, _) => match environment.deliver url with
          | .failed error => [.failed error]
          | .answered status bytes broken =>
              [.answered status, .arrived bytes, ApplyEvent.completed.unless broken,
                ApplyEvent.opened.unless environment.readable, .read bytes.length, .read 0,
                ApplyEvent.marked.unless environment.executable, ApplyEvent.spawned.unless environment.relauncher]

/-- What a task makes of a list of events. -/
def ApplyStage.advance : Option Bytes → ApplyStage → List ApplyEvent → ApplyStage × Option Bytes
  | staged, stage, [] => (stage, staged)
  | staged, stage, event :: rest => match stage.next libraries host staged event with
      | none => advance staged stage rest
      | some (later, after, _) => advance after later rest

section

variable {libraries host}

theorem ApplyStage.advance_ended (staged : Option Bytes) (result : Except Text Unit) (events : List ApplyEvent) :
    (ApplyStage.ended result).advance libraries host staged events = (.ended result, staged) := by
  induction events with
  | nil => rfl
  | cons event rest ih => cases event <;> exact ih

theorem ApplyStage.advance_next {staged after : Option Bytes} {stage later : ApplyStage} {event : ApplyEvent}
    {deed : Option ApplyDeed} (stepped : stage.next libraries host staged event = some (later, after, deed))
    (rest : List ApplyEvent) :
    stage.advance libraries host staged (event :: rest) = later.advance libraries host after rest := by
  rw [advance, stepped]

/-- The last steps of an update. -/
theorem ApplyStage.advance_verified (bytes : Bytes) (executable relauncher : Option Text) (files : UpdateFiles)
    (same : files.staged = some bytes) :
    let outcome := (do
      failing (executable.getD []) executable
      spawnRelauncher relauncher bytes : Effect.Proc UpdateFiles Text Unit) files
    ApplyStage.verified.advance libraries host (some bytes)
      [ApplyEvent.marked.unless executable, ApplyEvent.spawned.unless relauncher] =
        (.ended outcome.1, outcome.2.staged) := by
  cases executable with
  | some error => 
      rw [ApplyEvent.unless, advance_next rfl, fail, advance_ended, ← same]
      rfl
  | none =>
      rw [ApplyEvent.unless, advance_next rfl]
      cases relauncher with
      | some error =>
          rw [ApplyEvent.unless, advance_next rfl, fail, advance_ended, ← same]
          rfl
      | none =>
          rw [ApplyEvent.unless, advance_next rfl, advance_ended, ← same]
          rfl

/-- Two reads are enough for a file that nobody else writes. -/
theorem ApplyStage.advance_read (sha256 path : Text) (bytes : Bytes) (rest : List ApplyEvent) :
    (ApplyStage.hashing sha256 path []).advance libraries host (some bytes) (.read bytes.length :: .read 0 :: rest) =
      if eqIgnoreAsciiCase (libraries.sha256 bytes) sha256 = true then
        ApplyStage.verified.advance libraries host (some bytes) rest
      else (.ended (.error (text "sha256 verify failed for " ++ path)), some bytes) := by
  have whole : piece (some bytes) [] bytes.length = bytes := by simp [piece, List.take_of_length_le]
  have ended : piece (some bytes) bytes 0 = [] := by simp [piece]
  by_cases empty : bytes = []
  · subst empty
    by_cases same : eqIgnoreAsciiCase (libraries.sha256 []) sha256 = true
    · simp [advance, next, ended, same]
    · simp [advance, next, ended, same, fail, message, advance_ended]
  · by_cases same : eqIgnoreAsciiCase (libraries.sha256 bytes) sha256 = true
    · simp [advance, next, whole, ended, empty, same]
    · simp [advance, next, whole, ended, empty, same, fail, message, advance_ended]

theorem ApplyStage.advance_downloaded (sha256 path : Text) (bytes : Bytes) (readable executable relauncher : Option Text)
    (files : UpdateFiles) (same : files.staged = some bytes) :
    let outcome := (do
      let read ← verifySha256 libraries (text "sha256 verify failed for " ++ path) readable sha256
      failing (executable.getD []) executable
      spawnRelauncher relauncher read : Effect.Proc UpdateFiles Text Unit) files
    (ApplyStage.downloaded sha256 path).advance libraries host (some bytes)
      [ApplyEvent.opened.unless readable, .read bytes.length, .read 0, ApplyEvent.marked.unless executable,
        ApplyEvent.spawned.unless relauncher] = (.ended outcome.1, outcome.2.staged) := by
  cases readable with
  | some error =>
      rw [ApplyEvent.unless, advance_next rfl, fail, advance_ended, ← same]
      rfl
  | none =>
      rw [ApplyEvent.unless, advance_next rfl, advance_read]
      by_cases digest : eqIgnoreAsciiCase (libraries.sha256 bytes) sha256 = true
      · have checked : verifySha256 libraries (text "sha256 verify failed for " ++ path) none sha256 files =
            (.ok bytes, files) := by simp [verifySha256, failing, Effect.Proc.bind_apply, same, digest]
        rw [if_pos digest, advance_verified bytes executable relauncher files same, Effect.Proc.bind_apply, checked]
      · have checked : verifySha256 libraries (text "sha256 verify failed for " ++ path) none sha256 files =
            (.error (text "sha256 verify failed for " ++ path), files) := by
          simp [verifySha256, failing, Effect.Proc.bind_apply, same, digest]
        rw [if_neg digest, Effect.Proc.bind_apply, checked, ← same]

theorem ApplyStage.advance_planned (url sha256 path : Text) (status : Nat) (bytes : Bytes)
    (broken readable executable relauncher : Option Text) (files : UpdateFiles) :
    let outcome := (do
      downloadTo (text "download " ++ url ++ text " -> " ++ path) (.answered status bytes broken)
      let read ← verifySha256 libraries (text "sha256 verify failed for " ++ path) readable sha256
      failing (executable.getD []) executable
      spawnRelauncher relauncher read : Effect.Proc UpdateFiles Text Unit) files
    (ApplyStage.planned url sha256 path).advance libraries host files.staged
      [.answered status, .arrived bytes, ApplyEvent.completed.unless broken, ApplyEvent.opened.unless readable,
        .read bytes.length, .read 0, ApplyEvent.marked.unless executable, ApplyEvent.spawned.unless relauncher] =
          (.ended outcome.1, outcome.2.staged) := by
  by_cases success : isSuccess status = true
  · have fits : ¬ (status < 200 ∨ 300 ≤ status) := by
      simp only [isSuccess, Bool.and_eq_true, decide_eq_true_eq] at success
      omega
    have answered : (ApplyStage.planned url sha256 path).next libraries host files.staged (.answered status) =
        some (.downloading url sha256 path 0, some [], some .wrote) := by simp [next, success]
    have written : writeAt 0 bytes [] = bytes := by simp [writeAt]
    rw [advance_next answered, advance_next rfl, Option.map_some, written, Effect.Proc.bind_apply, downloadTo, if_neg fits]
    cases broken with
    | some error =>
        rw [ApplyEvent.unless, advance_next rfl, fail, advance_ended]
        rfl
    | none =>
        rw [ApplyEvent.unless, advance_next rfl]
        exact advance_downloaded sha256 path bytes readable executable relauncher { files with staged := some bytes } rfl
  · have unfit : status < 200 ∨ 300 ≤ status := by
      simp only [isSuccess, Bool.and_eq_true, decide_eq_true_eq] at success
      omega
    have answered : (ApplyStage.planned url sha256 path).next libraries host files.staged (.answered status) =
        some ((ApplyStage.planned url sha256 path).fail [], files.staged, none) := by simp [next, success]
    rw [advance_next answered, fail, advance_ended, Effect.Proc.bind_apply, downloadTo, if_pos unfit]
    rfl

theorem UpdateRequests.run_alone (info : UpdateInfo) (stage : ApplyStage) (staged : Option Bytes)
    (deeds : List (Nat × ApplyDeed)) (events : List ApplyEvent) :
    let s := UpdateRequests.run libraries host ⟨info, [stage], staged, deeds, none⟩ (events.map (.task 0))
    s.applies = [(stage.advance libraries host staged events).1] ∧
      s.staged = (stage.advance libraries host staged events).2 := by
  induction events generalizing stage staged deeds with
  | nil => exact ⟨rfl, rfl⟩
  | cons event rest ih =>
      simp only [List.map_cons, UpdateRequests.run, List.foldl_cons, ApplyStage.advance]
      have stepped : UpdateRequests.step libraries host ⟨info, [stage], staged, deeds, none⟩ (.task 0 event) =
          UpdateRequests.proceed libraries host ⟨info, [stage], staged, deeds, none⟩ 0 event := rfl
      rw [stepped, UpdateRequests.proceed]
      simp only [List.getElem?_cons_zero]
      cases stage.next libraries host staged event with
      | none => exact ih stage staged deeds
      | some outcome => exact ih _ _ _

/-- A task that is alone does what the whole update does. -/
theorem applyUpdate_alone (environment : ApplyEnvironment) (info current : UpdateInfo) (files : UpdateFiles) :
    let s := UpdateRequests.run libraries host ⟨current, [.requested info], files.staged, [], none⟩
      ((environment.events libraries host info).map (.task 0))
    s.applies = [.ended (applyUpdate libraries host environment info files).1] ∧
      s.staged = (applyUpdate libraries host environment info files).2.staged := by
  obtain ⟨applies, staged⟩ := @UpdateRequests.run_alone _ libraries host current (.requested info)
    files.staged [] (environment.events libraries host info)
  simp only [applies, staged, List.cons.injEq, and_true]
  obtain ⟨stagedPath, deliver, readable, executable, relauncher⟩ := environment
  cases planned : plannedUpdate libraries host info with
  | error message => 
      cases stagedPath <;>
        simp [ApplyStage.advance, ApplyStage.next, planned, applyUpdate, Effect.Proc.bind_apply, Effect.Proc.ofExcept,
          ApplyEnvironment.events]
  | ok plan =>
      obtain ⟨url, sha256⟩ := plan
      cases stagedPath with
      | error error => 
          simp [ApplyStage.advance, ApplyStage.next, planned, applyUpdate, Effect.Proc.bind_apply,
            Effect.Proc.ofExcept, ApplyEnvironment.events]
      | ok path =>
          have placed : (ApplyStage.requested info).next libraries host files.staged (.placed path) =
              some (.planned url sha256 path, files.staged, none) := by simp [ApplyStage.next, planned]
          simp only [applyUpdate, Effect.Proc.bind_apply, Effect.Proc.ofExcept, ApplyEnvironment.events, planned]
          rw [ApplyStage.advance_next placed]
          cases deliver url with
          | failed error =>
              rw [ApplyStage.advance_next rfl, ApplyStage.fail, ApplyStage.advance_ended]
              exact ⟨rfl, rfl⟩
          | answered status bytes broken =>
              rw [ApplyStage.advance_planned]
              exact ⟨rfl, rfl⟩

end

namespace UpdateSample

/-- Only the envelope of the sample has this canonical text. -/
def strictLibraries : UpdateLibraries Bytes where
  canonical json :=
    if SignedManifest.ofJson json = SignedManifest.ofJson envelope then .ok canonical
    else .error (text "another envelope")
  decodeBase64 := sampleLibraries.decodeBase64
  verifyingKey := sampleLibraries.verifyingKey
  verify := sampleLibraries.verify
  sha256 bytes :=
    if bytes = [] then text "e3b0c44298fc1c149afbf4c8996fb92427ae41e4649b934ca495991b7852b855"
    else text "ba7816bf8f01cfea414140de5dae2223b00361a396177a9cb410ff61f20015ad"
  manifestError := sampleLibraries.manifestError
  isDateTime := sampleLibraries.isDateTime

def requests (actions : List RequestAction) : UpdateRequests :=
  (UpdateRequests.initial sampleHost none).run strictLibraries sampleHost actions

/-- What the process leaves when it exits. -/
def left (s : UpdateRequests) : Option (Option Nat) × List (Nat × ApplyDeed) × Option Bytes :=
  (s.exited, s.deeds, s.staged)

def poll : RequestAction := .updateCheck (.answered 200 (.ok (response []))) 0

def placed (index : Nat) : RequestAction := .task index (.placed (text "/opt/aeordb-client.new"))

/-- A download of `abc` up to the spawned relauncher. -/
def install (index : Nat) : List RequestAction :=
  [.answered 200, .arrived [97, 98], .arrived [99], .completed, .opened, .read 2, .read 2, .marked, .spawned].map
    (.task index)

/-- A second request truncates the file that the first has verified. -/
def overlapping : List RequestAction :=
  [poll, .updateApply, placed 0] ++ install 0 ++ [.updateApply, placed 1, .task 1 (.answered 200), .exit 0]

/-- The first request is answered with an error, and exits the process after the second has spawned. -/
def retried : List RequestAction :=
  [poll, .updateApply, placed 0, .task 0 (.answered 404), .updateApply, placed 1] ++ install 1 ++ [.exit 0]

/-- The download of the only request is answered with an error. -/
def refused : List RequestAction := [poll, .updateApply, placed 0, .task 0 (.answered 404), .exit 0]

theorem not_authentic_nil : ¬ Authentic strictLibraries sampleHost [] := by
  rintro ⟨keyId, json, manifest, version, entry, signed, -, -, listed, same⟩
  obtain ⟨-, -, canonical, -, -, -, rendered, -⟩ := signed.verified
  have known : SignedManifest.ofJson json = SignedManifest.ofJson envelope := by
    by_contra other
    simp [strictLibraries, other] at rendered
  rw [signed.parsed] at known
  have only : (SignedManifest.ofJson envelope).map (fun manifest =>
      (manifest.platforms.lookup sampleHost.platform).map SignedPlatformEntry.sha256) =
        some (some (text "ba7816bf8f01cfea414140de5dae2223b00361a396177a9cb410ff61f20015ad")) := by decide +kernel
  rw [← known, Option.map_some, listed, Option.map_some, Option.some.injEq, Option.some.injEq] at only
  rw [only] at same
  revert same
  decide +kernel

end UpdateSample

open UpdateSample in
/-- A request that comes after the verification truncates the file that is moved over the executable. -/
theorem exits_installsVerified_overlapping : ¬ ∀ staged actions,
    ((UpdateRequests.initial sampleHost staged).run strictLibraries sampleHost actions).InstallsVerified
      strictLibraries sampleHost := by
  intro all
  have result : (requests overlapping).InstallsVerified strictLibraries sampleHost := all none overlapping
  have reached : left (requests overlapping) =
      (some (some 0), [(1, .wrote), (0, .spawned), (0, .verified), (0, .wrote), (0, .wrote), (0, .wrote)], some []) := by
    decide +kernel
  simp only [left, Prod.mk.injEq] at reached
  obtain ⟨gone, deeds, truncated⟩ := reached
  have spawned : (0, ApplyDeed.spawned) ∈ (requests overlapping).deeds := by
    rw [deeds]
    decide
  obtain ⟨⟨bytes, moved, authentic⟩, -⟩ := result (by rw [gone]; rfl) 0 spawned
  rw [truncated, Option.some.injEq] at moved
  exact not_authentic_nil (moved ▸ authentic)

open UpdateSample in
/-- The bytes of `abc` are moved, whichever request exits the process. -/
theorem exits_installsVerified_retried :
    (requests retried).exited = some (some 0) ∧ (1, ApplyDeed.spawned) ∈ (requests retried).deeds ∧
      ∃ bytes, (requests retried).staged = some bytes ∧ Authentic strictLibraries sampleHost bytes := by
  have careful : (UpdateRequests.initial sampleHost none).CarefulRun strictLibraries sampleHost retried := by
    decide +kernel
  have result : (requests retried).InstallsVerified strictLibraries sampleHost :=
    exits_installsVerified strictLibraries sampleHost none retried careful
  have reached : left (requests retried) =
      (some (some 0), [(1, .spawned), (1, .verified), (1, .wrote), (1, .wrote), (1, .wrote)], some [97, 98, 99]) := by
    decide +kernel
  simp only [left, Prod.mk.injEq] at reached
  obtain ⟨gone, deeds, -⟩ := reached
  have spawned : (1, ApplyDeed.spawned) ∈ (requests retried).deeds := by
    rw [deeds]
    decide
  exact ⟨gone, spawned, (result (by rw [gone]; rfl) 1 spawned).1⟩

open UpdateSample in
/-- A request whose download is answered with 404 exits the process without a relauncher. -/
theorem exits_unspawned : ¬ ∀ staged actions,
    ((UpdateRequests.initial sampleHost staged).run strictLibraries sampleHost actions).ExitsForRelauncher := by
  intro all
  have result : (requests refused).ExitsForRelauncher := all none refused
  have reached : left (requests refused) = (some (some 0), [], none) := by decide +kernel
  simp only [left, Prod.mk.injEq] at reached
  obtain ⟨gone, deeds, -⟩ := reached
  have spawned := result 0 gone
  rw [deeds] at spawned
  cases spawned

end AeordbSync

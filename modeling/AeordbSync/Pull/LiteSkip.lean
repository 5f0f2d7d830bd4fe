import AeordbSync.Pull.Interference
import AeordbSync.Push.RunPaths
import AeordbSync.Reference

namespace AeordbSync
open Characters OsPath FileSystem Effect Interference

variable {ρ α : Type}

/-- Something else changes the disk. -/
structure Elapses (paths : Set PathBuf) (w next : Watched ρ) : Prop where
  past : next.past = w.seen.trees
  readings : next.readings = w.readings
  pulled : next.pulled = w.pulled
  fresh : w.seen.Fresh paths next.disk

/-- The steps of the pull give fresh times as well. -/
def FreshStep (paths : Set PathBuf) (_ : PullStep) (w next : Watched ρ) : Prop := w.seen.Fresh paths next.disk

/-- When the time of an assembled file is read, the file has its content still, or another size. -/
def Undisturbed : PullStep → Watched ρ → Prop
  | .call, _ => True
  | .readTime path content, w => ∀ bytes time, shownAt w.disk path = some (bytes, time) →
      bytes = content ∨ bytes.length ≠ content.length

/-- A record with this time is good as long as nothing else of the same size can have it. -/
def Settled (seen : Seen) (path : PathBuf) (content : Bytes) (time : Int) : Prop :=
  seen.Spent path time ∧ ∀ bytes, shownAt seen.disk path = some (bytes, time) →
    bytes = content ∨ bytes.length ≠ content.length

structure Kept (paths : Set PathBuf) (w : Watched ρ) : Prop where
  coherent : w.seen.Coherent paths
  pulled : ∀ pulled ∈ w.pulled, pulled.path ∈ paths ∧ pulled.record.size = pulled.content.length ∧
    Settled w.seen pulled.path pulled.content pulled.record.modifiedAt

section

variable {paths : Set PathBuf} {w next : Watched ρ}

theorem Settled.step {seen later : Seen} {path : PathBuf} {content : Bytes} {time : Int}
    (settled : Settled seen path content time) (inside : path ∈ paths) (follows : seen.Follows paths later) :
    Settled later path content time := by
  refine ⟨follows.spent settled.1, ?_⟩
  intro bytes shown
  exact settled.2 bytes (follows.shown inside settled.1 shown)

theorem Kept.step (kept : Kept paths w) (follows : w.seen.Follows paths next.seen)
    (pulled : next.pulled = w.pulled) : Kept paths next := by
  refine ⟨follows.coherent kept.coherent, ?_⟩
  rw [pulled]
  intro file inside
  obtain ⟨known, size, settled⟩ := kept.pulled file inside
  exact ⟨known, size, settled.step known follows⟩

/-- A file with a good record joins. -/
theorem Kept.add (kept : Kept paths w) {pulled : Pulled} (inside : pulled.path ∈ paths)
    (size : pulled.record.size = pulled.content.length)
    (settled : Settled w.seen pulled.path pulled.content pulled.record.modifiedAt) :
    Kept paths { w with pulled := pulled :: w.pulled } := by
  refine ⟨kept.coherent, ?_⟩
  intro other listed
  rcases List.mem_cons.mp listed with rfl | old
  · exact ⟨inside, size, settled⟩
  · exact kept.pulled other old

theorem Elapses.follows (elapses : Elapses paths w next) : w.seen.Follows paths next.seen := by
  refine ⟨elapses.past, ?_, elapses.fresh⟩
  show w.readings ⊆ next.readings
  rw [elapses.readings]
  exact List.Subset.refl _

theorem Elapses.kept (elapses : Elapses paths w next) (kept : Kept paths w) : Kept paths next :=
  kept.step elapses.follows elapses.pulled

theorem kept_stable : Stable (Elapses paths) (Kept (ρ := ρ) paths) := fun _ _ elapses kept => elapses.kept kept

theorem kept_start (world : World ρ) : Kept paths (Watched.start world) := by
  refine ⟨Seen.coherent_start _ _, ?_⟩
  intro pulled inside
  cases inside

/-- The steps of a pull in which no file is disturbed between its assembly and the reading of its time. -/
def OwnStep (paths : Set PathBuf) (name : PullStep) (w next : Watched ρ) : Prop :=
  FreshStep paths name w next ∧ Undisturbed name w

/-- The files that have been pulled stay as good as they are. -/
abbrev Keeps (paths : Set PathBuf) (script : PullScript ρ α) : Prop :=
  Relies (Elapses paths) (OwnStep paths) (Kept paths) script (fun _ => Kept paths) fun _ => Kept paths

theorem keeps_step (name : PullStep) (x : PullProgram ρ α) : Keeps paths (Interleaved.step name x) := by
  apply Relies.call kept_stable (fun _ => kept_stable) fun _ => kept_stable
  intro w kept fits
  have after : Kept paths (w.moved (x w.state).2) := kept.step ⟨rfl, List.Subset.refl _, fits.1⟩ rfl
  show Outcome _ _ ((x w.state).1, w.moved (x w.state).2)
  cases (x w.state).1 <;> exact after

theorem keeps_throw (e : ClientError) : Keeps paths (Script.throw e : PullScript ρ α) := by
  intro w result last course kept
  obtain ⟨rfl, later⟩ := course_done course
  exact kept_stable.after later kept

theorem keeps_ret (a : α) : Keeps paths (pure a : PullScript ρ α) := Relies.ret kept_stable fun _ kept => kept

variable {env : Env ρ}

theorem keeps_orFail {script : PullScript ρ (Except IoError α)} (keeps : Keeps paths script) :
    Keeps paths (Interleaved.orFail script) := by
  apply Relies.bind keeps
  intro result
  cases result with
  | ok a => exact keeps_ret a
  | error e => exact keeps_throw _

theorem keeps_orCleanup {entry : Text} {path : PathBuf} {script : PullScript ρ α} (keeps : Keeps paths script) :
    Keeps paths (Interleaved.orCleanup env entry path script) := by
  apply Relies.bind (Relies.attempt (Q := fun _ => Kept paths) keeps)
  intro result
  cases result with
  | ok a => exact keeps_ret a
  | error e => exact Relies.bind (keeps_step _ _) fun _ => keeps_throw e

theorem keeps_chunkBytes {entry : Text} {path : PathBuf} {reader : Option Location} {chunks : List LocalChunk}
    {fetched : List (Text × Bytes)} {hash : Text} :
    Keeps paths (Interleaved.chunkBytes env entry path reader chunks fetched hash) := by
  unfold Interleaved.chunkBytes
  split
  · exact keeps_throw _
  · apply keeps_orCleanup
    exact Relies.bind (keeps_orFail (keeps_step _ _)) fun _ => keeps_orFail (keeps_step _ _)
  · exact keeps_ret _
  · exact keeps_orCleanup (keeps_throw _)

theorem keeps_writeChunks {entry : Text} {path : PathBuf} {reader : Option Location} {chunks : List LocalChunk}
    {fetched : List (Text × Bytes)} {written : Location} (hashes : List Text) :
    Keeps paths (Interleaved.writeChunks env entry path reader chunks fetched written hashes) := by
  induction hashes with
  | nil => exact keeps_ret []
  | cons hash rest ih =>
      apply Relies.bind keeps_chunkBytes
      intro bytes
      apply Relies.bind (Q := fun _ => Kept paths)
      · apply keeps_orCleanup
        exact Relies.bind (keeps_step _ _) fun _ => keeps_orFail (keeps_step _ _)
      · intro _
        exact Relies.bind ih fun others => keeps_ret _

theorem keeps_assembleFile (fetched : List (Text × Bytes)) (plan : FilePlan) :
    Keeps paths (Interleaved.assembleFile env fetched plan) := by
  apply Relies.bind (keeps_step _ _)
  intro reader
  apply Relies.bind (keeps_step _ _)
  intro written
  apply Relies.bind (keeps_writeChunks _)
  intro content
  apply Relies.bind (Q := fun _ => Kept paths)
  · apply keeps_orCleanup
    apply Relies.bind (keeps_orFail (keeps_step _ _))
    intro _
    exact Relies.bind (keeps_step _ _) fun _ => keeps_orFail (keeps_step _ _)
  · exact fun _ => keeps_ret content

/-- The reading of the clock counts as a time that has been seen. -/
theorem now_read : Relies (Elapses paths) (OwnStep paths) (Kept paths) (Interleaved.now env)
    (fun time w => Kept paths w ∧ time ∈ w.readings) fun _ => Kept paths := by
  apply Relies.call kept_stable ?_ fun _ => kept_stable
  · intro w kept fits
    exact ⟨kept.step ⟨rfl, List.subset_cons_self _ _, fits.1⟩ rfl, List.mem_cons_self⟩
  · intro time w next elapses holds
    exact ⟨elapses.kept holds.1, elapses.readings ▸ holds.2⟩

/-- The time that a record gets: the file's own, or else the time at which it was asked for. -/
def stampOf (time : Int) : Except ClientError Int → Int
  | .ok modified => modified
  | .error _ => time

/-- After the time has been read, the record with it is good. -/
theorem readTime_settled {path : PathBuf} (content : Bytes) (time : Int) (inside : path ∈ paths) :
    Relies (Elapses paths) (OwnStep paths) (fun w => Kept paths w ∧ time ∈ w.readings)
      (Interleaved.step (.readTime path content) (onDisk (fileMtime env path)))
      (fun modified w => Kept paths w ∧ Settled w.seen path content (stampOf time modified)) fun _ => Kept paths := by
  apply Relies.call
  · intro w next elapses holds
    exact ⟨elapses.kept holds.1, elapses.readings ▸ holds.2⟩
  · intro modified w next elapses holds
    exact ⟨elapses.kept holds.1,
      holds.2.step inside elapses.follows⟩
  · exact fun _ => kept_stable
  · rintro w ⟨kept, read⟩ ⟨fresh, undisturbed⟩
    have quiet : Triple (Unmoved w.state.world) (fileMtime env path) (fun modified next =>
        Unmoved w.state.world next ∧ ∀ time, modified = .ok time → w.state.world.disk.modified path = .ok time ∧ 0 ≤ time)
        fun _ _ => False := fileMtime_unmoved
    have outcome := quiet w.state.world (Unmoved.refl _)
    show Outcome _ _ ((fileMtime env path w.state.world).1,
      w.moved (w.state.withWorld (fileMtime env path w.state.world).2))
    replace fresh : w.seen.Fresh paths (fileMtime env path w.state.world).2.disk := fresh
    rcases equal : fileMtime env path w.state.world with ⟨result, world⟩
    rw [equal] at outcome fresh
    cases result with
    | error error => exact False.elim outcome
    | ok modified =>
        obtain ⟨unmoved, dated⟩ := outcome
        refine ⟨kept.step ⟨rfl, List.Subset.refl _, fresh⟩ rfl, ?_, ?_⟩
        · cases modified with
          | error error => exact .inl read
          | ok stamp =>
              obtain ⟨bytes, shown⟩ := shownAt_of_modified (dated stamp rfl).1
              exact .inr ⟨w.disk, List.mem_cons_of_mem _ List.mem_cons_self, bytes, shown⟩
        · intro bytes shown
          replace shown : shownAt world.disk path = some (bytes, stampOf time modified) := shown
          rw [unmoved.disk] at shown
          exact undisturbed bytes _ shown

theorem recordPulled_kept (plan : FilePlan) (content : Bytes) (inside : plan.localPath ∈ paths) :
    Keeps paths (Interleaved.recordPulled env plan content) := by
  apply Relies.bind now_read
  intro time
  apply Relies.bind (readTime_settled content time inside)
  intro modified
  apply Relies.bind (Q := fun _ => Kept paths)
  · apply Relies.call
    · intro w next elapses holds
      exact ⟨elapses.kept holds.1,
        holds.2.step inside elapses.follows⟩
    · exact fun _ => kept_stable
    · exact fun _ => kept_stable
    · rintro w ⟨kept, settled⟩ ⟨fresh, -⟩
      let record := pulledFileMeta plan.entry (env.digest content) content.length (stampOf time modified) time
      let stored := storeMeta env "failed to store metadata for " record w.state
      have moved : Kept paths (w.moved stored.2) := kept.step ⟨rfl, List.Subset.refl _, fresh⟩ rfl
      have later : Settled (w.moved stored.2).seen plan.localPath content (stampOf time modified) :=
        settled.step inside ⟨rfl, List.Subset.refl _, fresh⟩
      let pulled : Pulled := ⟨plan.localPath, content, record⟩
      have added : Kept paths { w.moved stored.2 with pulled := pulled :: w.pulled } := moved.add inside rfl later
      show Outcome _ _ (stored.1, { w.moved stored.2 with pulled := pulled :: w.pulled })
      cases stored.1 <;> exact added
  · exact fun _ => keeps_step _ _

theorem assemblePlan_kept (fetched : List (Text × Bytes)) (fetchError : Option Text) (plan : FilePlan)
    (inside : plan.localPath ∈ paths) : Keeps paths (Interleaved.assemblePlan env fetched fetchError plan) := by
  cases fetchError with
  | some error => exact keeps_step _ _
  | none =>
      apply Relies.bind (Relies.attempt (Q := fun _ => Kept paths) (keeps_assembleFile fetched plan))
      intro result
      cases result with
      | ok content => exact recordPulled_kept plan content inside
      | error error => exact keeps_step _ _

/-- A time that has been seen is the time of the same file all along. -/
theorem shown_before {path : PathBuf} {time : Int} (inside : path ∈ paths) {bytes : Bytes}
    (later : Relation.ReflTransGen (Elapses paths) w next) (spent : w.seen.Spent path time)
    (shown : shownAt next.disk path = some (bytes, time)) : shownAt w.disk path = some (bytes, time) := by
  induction later using Relation.ReflTransGen.head_induction_on with
  | refl => exact shown
  | head elapses _ ih => exact elapses.follows.shown inside spent (ih (elapses.follows.spent spent))

end

/-- The local paths of the planned files. -/
def plannedPaths (plans : List FilePlan) : Set PathBuf := {path | ∃ plan ∈ plans, plan.localPath = path}

theorem plannedPaths_singleton (plan : FilePlan) : plannedPaths [plan] = {plan.localPath} := by
  ext path
  simp [plannedPaths, eq_comm]

/-- The check of `Undisturbed`. -/
def undisturbedAt : PullStep → Watched ρ → Bool
  | .call, _ => true
  | .readTime path content, w => match shownAt w.disk path with
    | none => true
    | some file => decide (file.1 = content ∨ file.1.length ≠ content.length)

theorem undisturbed_of_undisturbedAt {name : PullStep} {w : Watched ρ} (checked : undisturbedAt name w = true) :
    Undisturbed name w := by
  cases name with
  | call => trivial
  | readTime path content =>
      intro bytes time shown
      unfold undisturbedAt at checked
      simpa [shown] using checked

namespace LiteSample

def path : PathBuf := ofText (osText (text "/home/a.txt"))

def plan : FilePlan := ⟨⟨text "/docs/a.txt", plainDigest [65], 1, none, [plainDigest [65]]⟩, path, []⟩

def script : PullScript Shelf Unit := Interleaved.assemblePlans shelfEnv [(plainDigest [65], [65])] none [plan]

def start : Watched Shelf := Watched.start (startWorld (homeTree []) [] (Shelf.holding []))

/-- Another program writes one byte. -/
def written (w : Watched Shelf) : Watched Shelf :=
  { w with
    state := w.state.withWorld { w.state.world with
      disk := w.disk.put [osText (text "home"), osText (text "a.txt")] (.file [66] 100) }
    past := w.seen.trees }

/-- The steps of the pull up to the reading of its clock. -/
def afterRename : List (Option (Watched Shelf → Watched Shelf)) := List.replicate 7 none ++ [some written]

end LiteSample

end AeordbSync

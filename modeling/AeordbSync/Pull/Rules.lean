import AeordbSync.Pull.Sync
import AeordbSync.Rules

namespace AeordbSync
open Characters OsPath FileSystem Effect

variable {ρ α β : Type} {env : Env ρ}

/-- A call that changes the disk either does so or leaves it as it is. -/
theorem changeDisk_triple {call : DiskCall} {path : PathBuf} {f : Int → Tree → Except IoError (α × Tree)}
    {P : World ρ → Prop} {Q : Except IoError α → World ρ → Prop} {E : ClientError → World ρ → Prop}
    (failed : ∀ w error, P w → (∃ tick, env.diskFault call path tick = some error) ∨
      f (env.clock w.tick) w.disk = .error error → Q (.error error) w.advance)
    (changed : ∀ w a disk, P w → f (env.clock w.tick) w.disk = .ok (a, disk) →
      Q (.ok a) { w.advance with disk := disk }) : Triple P (changeDisk env call path f) Q E := by
  intro w before
  unfold changeDisk Env.faulty
  cases fault : env.diskFault call path w.tick with
  | some error => exact failed w error before (Or.inl ⟨w.tick, fault⟩)
  | none =>
      dsimp only
      split
      next error refused => exact failed w error before (Or.inr refused)
      next a disk done => exact changed w a disk before done

/-- What a program of a pull may do: change local paths for an entry, store records and remove them. -/
structure PullScope where
  change : Text → LocalChange → PathBuf → Prop
  stored : Text → Prop
  gone : Text → Prop

def OfPull (scope : PullScope) : Event ρ → Prop
  | .localChange entry change path => scope.change entry change path
  | .recorded record _ => scope.stored record.path
  | .forgotten path => scope.gone path
  | _ => False

/-- Whatever has been done lies in the scope. -/
structure PullFramed (scope : PullScope) (start next : World ρ) : Prop where
  log : ∃ new, next.log = new ++ start.log ∧ ∀ event ∈ new, OfPull scope event
  records : ∀ path, ¬ scope.stored path → ¬ scope.gone path →
    next.store.files.find path = start.store.files.find path
  fresh : ∀ path ∈ next.store.files.paths, path ∈ start.store.files.paths ∨ scope.stored path

namespace PullFramed

variable {scope : PullScope} {start next last : World ρ}

theorem refl (start : World ρ) : PullFramed scope start start :=
  ⟨⟨[], rfl, fun _ inside => (List.not_mem_nil inside).elim⟩, fun _ _ _ => rfl, fun _ => Or.inl⟩

/-- Only the log and the records are looked at. -/
theorem congr (framed : PullFramed scope start next) (log : last.log = next.log)
    (records : last.store.files = next.store.files) : PullFramed scope start last := by
  refine ⟨?_, fun path => ?_, ?_⟩
  · rw [log]
    exact framed.log
  · rw [records]
    exact framed.records path
  · rw [records]
    exact framed.fresh

theorem logged (framed : PullFramed scope start next) {event : Event ρ} (inside : OfPull scope event)
    (log : last.log = event :: next.log) (records : ∀ path, ¬ scope.stored path → ¬ scope.gone path →
      last.store.files.find path = next.store.files.find path)
    (fresh : ∀ path ∈ last.store.files.paths, path ∈ next.store.files.paths ∨ scope.stored path) :
    PullFramed scope start last := by
  obtain ⟨new, equal, all⟩ := framed.log
  refine ⟨⟨event :: new, by rw [log, equal, List.cons_append], fun other listed => ?_⟩, fun path s g => ?_,
    fun path inside => (fresh path inside).elim (framed.fresh path) Or.inr⟩
  · rcases List.mem_cons.mp listed with rfl | later
    · exact inside
    · exact all other later
  · exact (records path s g).trans (framed.records path s g)

end PullFramed

/-- The program stays in the scope, whatever its outcome. -/
def Framed (scope : PullScope) (start : World ρ) (x : Program ρ α) (F : α → Prop) : Prop :=
  Keeping (PullFramed scope start) x F

section Programs

variable {scope : PullScope} {start : World ρ} {F : α → Prop} {G : β → Prop}

theorem framed_bind {x : Program ρ α} {f : α → Program ρ β} (first : Framed scope start x F)
    (second : ∀ a, F a → Framed scope start (f a) G) : Framed scope start (x >>= f) G :=
  Keeping.bind first second

theorem framed_pure {a : α} (holds : F a) : Framed scope start (pure a : Program ρ α) F :=
  Keeping.ret holds

theorem framed_throw {e : ClientError} : Framed scope start (Proc.throw e : Program ρ α) F :=
  Keeping.throw

theorem framed_attempt {x : Program ρ α} (framed : Framed scope start x F) :
    Framed scope start (Proc.attempt x) fun r => ∀ a, r = .ok a → F a :=
  Keeping.attempt framed

theorem framed_note {event : Event ρ} (inside : OfPull scope event) :
    Framed scope start (note event) fun _ => True :=
  note_triple fun _ before => ⟨before.logged inside rfl (fun _ _ _ => rfl) fun _ => Or.inl, trivial⟩

theorem framed_readDisk {call : DiskCall} {path : PathBuf} {f : Tree → Except IoError α} :
    Framed scope start (readDisk env call path f) fun _ => True :=
  fun _ before => ⟨before.congr rfl rfl, trivial⟩

theorem framed_changeDisk {call : DiskCall} {path : PathBuf} {f : Int → Tree → Except IoError (α × Tree)} :
    Framed scope start (changeDisk env call path f) fun _ => True :=
  changeDisk_triple (fun _ _ before _ => ⟨before.congr rfl rfl, trivial⟩)
    fun _ _ _ before _ => ⟨before.congr rfl rfl, trivial⟩

theorem framed_callRemote {x : Proc ρ ClientError α} : Framed scope start (callRemote x) fun _ => True :=
  callRemote_triple (fun _ _ before _ => ⟨before.congr rfl rfl, trivial⟩)
    fun _ _ before _ => before.congr rfl rfl

theorem framed_now : Framed scope start (now env) fun _ => True :=
  fun _ before => ⟨before.congr rfl rfl, trivial⟩

theorem framed_arrange {xs : List α} : Framed scope start (arrange env xs) fun _ => True :=
  fun _ before => ⟨before.congr rfl rfl, trivial⟩

theorem framed_orFail {x : Program ρ (Except IoError α)} (framed : Framed scope start x fun _ => True) :
    Framed scope start (orFail x) fun _ => True :=
  framed_bind framed fun r _ => by
    cases r with
    | ok a => exact framed_pure trivial
    | error error => exact framed_throw

theorem framed_setFileMeta {record : FileSyncMeta} (inside : scope.stored record.path) :
    Framed scope start (setFileMeta env record) fun _ => True := by
  refine setFileMetasBatch_triple (fun impossible => by cases impossible)
    (fun w before => ⟨before.logged (show OfPull scope (.recorded record w.remote) from inside) rfl ?_ ?_,
      trivial⟩) fun _ _ before => before.congr rfl rfl
  · intro path outside _
    refine Records.find_setAll_other fun other listed same => outside ?_
    rw [List.mem_singleton.mp listed] at same
    exact same ▸ inside
  · intro path listed
    refine (Records.mem_paths_setAll listed).imp_right ?_
    rintro ⟨other, single, rfl⟩
    exact List.mem_singleton.mp single ▸ inside

theorem framed_deleteFileMeta {path : Text} (inside : scope.gone path) :
    Framed scope start (deleteFileMeta env path) fun _ => True := by
  refine writeStore_triple (fun w before => ⟨before.logged (show OfPull scope (.forgotten path) from inside) rfl ?_ ?_,
      trivial⟩) fun _ _ before => before.congr rfl rfl
  · intro other _ outside
    rw [Records.find_remove, if_neg]
    rintro rfl
    exact outside inside
  · exact fun other listed => Or.inl (Records.mem_paths_remove listed).1

end Programs

/-- The same for a program with the variables of a pull. -/
def PullKeeps (scope : PullScope) (start : World ρ) (x : PullProgram ρ α) (F : α → Prop) : Prop :=
  Keeping (fun s => PullFramed scope start s.world) x F

section PullPrograms

variable {scope : PullScope} {start : World ρ} {F : α → Prop} {G : β → Prop}

theorem keeps_bind {x : PullProgram ρ α} {f : α → PullProgram ρ β} (first : PullKeeps scope start x F)
    (second : ∀ a, F a → PullKeeps scope start (f a) G) : PullKeeps scope start (x >>= f) G :=
  Keeping.bind first second

theorem keeps_pure {a : α} (holds : F a) : PullKeeps scope start (pure a : PullProgram ρ α) F :=
  Keeping.ret holds

theorem keeps_modify {f : PullState ρ → PullState ρ} (same : ∀ s, (f s).world = s.world) :
    PullKeeps scope start (Proc.modify f : PullProgram ρ Unit) fun _ => True :=
  Keeping.modify fun _ before => by rw [same]; exact before

theorem keeps_onDisk {x : Program ρ α} (framed : Framed scope start x F) :
    PullKeeps scope start (onDisk x) F :=
  Keeping.zoom (fun _ _ => rfl) framed

theorem keeps_attempt {x : PullProgram ρ α} (keeps : PullKeeps scope start x F) :
    PullKeeps scope start (Proc.attempt x) fun r => ∀ a, r = .ok a → F a :=
  Keeping.attempt keeps

theorem keeps_forEach {ι : Type} {xs : List ι} {body : ι → PullProgram ρ Unit}
    (each : ∀ x ∈ xs, PullKeeps scope start (body x) fun _ => True) :
    PullKeeps scope start (Proc.forEach xs body) fun _ => True :=
  Keeping.forEach each

theorem keeps_when {c : Prop} [Decidable c] {x : PullProgram ρ Unit}
    (yes : c → PullKeeps scope start x fun _ => True) : PullKeeps scope start (Proc.when c x) fun _ => True :=
  Keeping.when yes

end PullPrograms

end AeordbSync

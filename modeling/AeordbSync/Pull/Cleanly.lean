import AeordbSync.Pull.Tasks
import AeordbSync.Push.ScanRules

namespace AeordbSync
open Characters OsPath FileSystem Effect

variable {ρ α β : Type} {env : Env ρ}

/-- A program of a pull takes no error back. -/
def Grows (x : PullProgram ρ α) : Prop := Keeping (fun s : PullState ρ => s.errors ≠ []) x fun _ => True

/-- The program brings about its condition unless it reports an error. -/
def Cleanly (P : PullState ρ → Prop) (x : PullProgram ρ α) (Q : α → PullState ρ → Prop) : Prop :=
  Triple P x (fun a s => s.errors ≠ [] ∨ Q a s) fun _ _ => True

namespace Grows

theorem bind {x : PullProgram ρ α} {f : α → PullProgram ρ β} (first : Grows x) (second : ∀ a, Grows (f a)) :
    Grows (x >>= f) :=
  Keeping.bind first fun a _ => second a

theorem ret {a : α} : Grows (pure a : PullProgram ρ α) := Keeping.ret trivial

theorem onDisk {x : Program ρ α} : Grows (onDisk x) :=
  Triple.zoom fun _ before => Triple.trivially (fun _ _ => ⟨before, trivial⟩) fun _ _ => before

theorem attempt {x : PullProgram ρ α} (grows : Grows x) : Grows (Proc.attempt x) :=
  (Keeping.attempt grows).weaken fun _ _ => trivial

theorem ite {c : Prop} [Decidable c] {x y : PullProgram ρ α} (yes : Grows x) (no : Grows y) :
    Grows (if c then x else y) :=
  Keeping.ite (fun _ => yes) fun _ => no

theorem modify {f : PullState ρ → PullState ρ} (more : ∀ s, s.errors <+: (f s).errors) :
    Grows (Proc.modify f : PullProgram ρ Unit) := by
  refine Keeping.modify fun s before => ?_
  obtain ⟨rest, equal⟩ := more s
  rw [← equal]
  exact List.append_ne_nil_of_left_ne_nil before rest

theorem same {f : PullState ρ → PullState ρ} (equal : ∀ s, (f s).errors = s.errors) :
    Grows (Proc.modify f : PullProgram ρ Unit) :=
  modify fun s => equal s ▸ List.prefix_refl _

theorem failed {message : Text} : Grows (Proc.modify (PullState.failed message) : PullProgram ρ Unit) :=
  modify fun _ => List.prefix_append _ _

theorem warned {message : Text} : Grows (Proc.modify (PullState.warned message) : PullProgram ρ Unit) :=
  modify fun _ => List.prefix_append _ _

theorem storeMeta {what : String} {record : FileSyncMeta} : Grows (storeMeta env what record) := by
  refine bind (attempt onDisk) fun r => ?_
  cases r with
  | ok _ => exact ret
  | error error => exact warned

theorem forgetDeleted {what : String} {path : Text} : Grows (forgetDeleted env what path) := by
  refine bind (bind (attempt onDisk) fun r => ?_) fun _ => same fun _ => rfl
  cases r with
  | ok _ => exact ret
  | error error => exact warned

theorem planEntry {ctx : PullContext} {entry : RemoteSyncFileEntry} : Grows (planEntry env ctx entry) := by
  refine ite (bind (same fun _ => rfl) fun _ => ret) (ite (bind (same fun _ => rfl) fun _ => ret) ?_)
  refine bind onDisk fun r => ?_
  cases r with
  | error error => exact bind failed fun _ => ret
  | ok _ => exact bind onDisk fun chunks => by cases chunks <;> exact ret

theorem planEntries {ctx : PullContext} (entries : List RemoteSyncFileEntry) : Grows (planEntries env ctx entries) := by
  induction entries with
  | nil => exact ret
  | cons entry rest ih => exact bind planEntry fun _ => bind ih fun _ => ret

theorem recordPulled {plan : FilePlan} {size : Nat} {contentHash : Text} :
    Grows (recordPulled env plan size contentHash) :=
  bind onDisk fun _ => bind onDisk fun _ => bind storeMeta fun _ => same fun _ => rfl

theorem assembled {plan : FilePlan} (result : Except ClientError (Nat × Text)) : Grows (match result with
    | .ok (size, contentHash) => AeordbSync.recordPulled env plan size contentHash
    | .error error => Proc.modify (PullState.failed
        (text "failed to assemble " ++ plan.entry.path ++ text ": " ++ error.display))) := by
  cases result with
  | error error => exact failed
  | ok result => exact recordPulled

theorem assemblePlan {fetched : List (Text × Bytes)} {fetchError : Option Text} {plan : FilePlan} :
    Grows (assemblePlan env fetched fetchError plan) := by
  cases fetchError with
  | some error => exact failed
  | none => exact bind (attempt onDisk) assembled

theorem deleteLocal {ctx : PullContext} {follow : Bool} {failure what : String} {path : Text} :
    Grows (deleteLocal env ctx follow failure what path) := by
  refine ite ret (bind onDisk fun r => ?_)
  cases r with
  | error error => exact forgetDeleted
  | ok _ =>
      refine bind onDisk fun r => ?_
      cases r with
      | error error => exact failed
      | ok _ => exact forgetDeleted

theorem pullSymlink {ctx : PullContext} {entry : RemoteSyncSymlinkEntry} : Grows (pullSymlink env ctx entry) := by
  refine ite ret (bind onDisk fun r => ?_)
  cases r with
  | error error => exact failed
  | ok _ =>
      refine bind onDisk fun r => ?_
      cases r with
      | error error => exact failed
      | ok _ => exact bind onDisk fun _ => bind storeMeta fun _ => same fun _ => rfl

theorem run {ctx : PullContext} (task : PullTask) : Grows (task.run env ctx) := by
  cases task with
  | fetch entry => exact ret
  | link entry => exact pullSymlink
  | removeFile path => exact deleteLocal
  | removeSymlink path => exact deleteLocal

theorem forEach {ι : Type} {body : ι → PullProgram ρ Unit} {xs : List ι} (grows : ∀ x, Grows (body x)) :
    Grows (Proc.forEach xs body) :=
  Keeping.forEach fun x _ => grows x

end Grows

namespace Cleanly

variable {P : PullState ρ → Prop} {Q : α → PullState ρ → Prop} {R : β → PullState ρ → Prop}

theorem of_triple {x : PullProgram ρ α} (triple : Triple P x Q fun _ _ => True) : Cleanly P x Q :=
  triple.strengthen fun _ _ => Or.inr

theorem of_keeping {x : PullProgram ρ α} {F : α → Prop} (keeping : Keeping P x F) :
    Cleanly P x fun a s => P s ∧ F a :=
  of_triple (keeping.conseq (fun _ => id) (fun _ _ => id) fun _ _ _ => trivial)

theorem bind {x : PullProgram ρ α} {f : α → PullProgram ρ β} (first : Cleanly P x Q) (grows : ∀ a, Grows (f a))
    (second : ∀ a, Cleanly (Q a) (f a) R) : Cleanly P (x >>= f) R := by
  refine Triple.bind first fun a s before => ?_
  rcases before with broken | holds
  · exact (grows a).conseq (fun _ => id) (fun _ _ holds => Or.inl holds.1) (fun _ _ _ => trivial) s broken
  · exact second a s holds

theorem broken {x : PullProgram ρ α} (breaks : ∀ s, (x s).2.errors ≠ []) : Cleanly P x Q := by
  intro s _
  have some := breaks s
  rcases ended : x s with ⟨result, next⟩
  rw [ended] at some
  cases result with
  | error error => exact trivial
  | ok a => exact Or.inl some

theorem failed {message : Text} {Q : Unit → PullState ρ → Prop} :
    Cleanly P (Proc.modify (PullState.failed message)) Q :=
  broken fun _ => List.append_ne_nil_of_right_ne_nil _ (List.cons_ne_nil _ _)

theorem warned {message : Text} {Q : Unit → PullState ρ → Prop} :
    Cleanly P (Proc.modify (PullState.warned message)) Q :=
  broken fun _ => List.append_ne_nil_of_right_ne_nil _ (List.cons_ne_nil _ _)

theorem ret {a : α} (holds : ∀ s, P s → Q a s) : Cleanly P (pure a) Q := of_triple (Triple.ret holds)

theorem modify {f : PullState ρ → PullState ρ} {Q : Unit → PullState ρ → Prop} (holds : ∀ s, P s → Q () (f s)) :
    Cleanly P (Proc.modify f) Q :=
  of_triple (Triple.modify holds)

theorem ite {c : Prop} [Decidable c] {x y : PullProgram ρ α} (yes : c → Cleanly P x Q) (no : ¬ c → Cleanly P y Q) :
    Cleanly P (if c then x else y) Q :=
  Triple.ite yes no

theorem weaken {U : PullState ρ → Prop} {x : PullProgram ρ α} (cleanly : Cleanly P x Q) (before : ∀ s, U s → P s) :
    Cleanly U x Q :=
  Triple.weaken cleanly before

theorem strengthen {V : α → PullState ρ → Prop} {x : PullProgram ρ α} (cleanly : Cleanly P x Q)
    (after : ∀ a s, Q a s → V a s) : Cleanly P x V :=
  Triple.strengthen cleanly fun a s => Or.imp_right (after a s)

theorem and_keeping {U : PullState ρ → Prop} {x : PullProgram ρ α} {F : α → Prop} (cleanly : Cleanly P x Q)
    (keeping : Keeping U x F) : Cleanly (fun s => P s ∧ U s) x fun a s => Q a s ∧ U s := by
  refine ((cleanly.weaken fun _ holds => holds.1).both (Triple.weaken keeping fun _ holds => holds.2)).conseq
    (fun _ => id) (fun _ _ holds => ?_) fun _ _ _ => trivial
  exact holds.1.imp_right fun known => ⟨known, holds.2.1⟩

/-- A round of a loop may begin with an error. -/
theorem round {M : PullState ρ → Prop} {x : PullProgram ρ Unit} (cleanly : Cleanly P x fun _ => M) (grows : Grows x) :
    Triple (fun s => s.errors ≠ [] ∨ P s) x (fun _ s => s.errors ≠ [] ∨ M s) fun _ _ => True := by
  intro s before
  rcases before with broken | holds
  · exact grows.conseq (fun _ => id) (fun _ _ holds => Or.inl holds.1) (fun _ _ _ => trivial) s broken
  · exact cleanly s holds

theorem forEach_keep {ι : Type} {body : ι → PullProgram ρ Unit} (xs : List ι) (grows : ∀ x, Grows (body x))
    (each : ∀ x ∈ xs, Cleanly P (body x) fun _ => P) : Cleanly P (Proc.forEach xs body) fun _ => P :=
  (Triple.forEach_keep (fun s : PullState ρ => s.errors ≠ [] ∨ P s) xs fun x inside =>
    (each x inside).round (grows x)).weaken fun _ => Or.inr

/-- One round brings about what the later rounds keep. -/
theorem forEach_around {ι : Type} {M : PullState ρ → Prop} {front back : List ι} {x : ι}
    {body : ι → PullProgram ρ Unit} (grows : ∀ x, Grows (body x))
    (before : ∀ y ∈ front, Cleanly P (body y) fun _ => P) (own : Cleanly P (body x) fun _ => M)
    (after : ∀ y ∈ back, Cleanly M (body y) fun _ => M) :
    Cleanly P (Proc.forEach (front ++ x :: back) body) fun _ => M :=
  (Triple.forEach_around (fun y inside => (before y inside).round (grows y)) (own.round (grows x)) fun y inside =>
    (after y inside).round (grows y)).weaken fun _ => Or.inr

end Cleanly

end AeordbSync

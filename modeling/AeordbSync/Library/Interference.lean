import Mathlib.Logic.Relation
import AeordbSync.Library.Effect

namespace Interference
open Effect

/-- A program gives up control before each of its steps. The steps have names. -/
inductive Script (ι σ ε α : Type) where
  | done (result : Except ε α)
  | step (name : ι) (change : σ → σ) (next : σ → Script ι σ ε α)

namespace Script

variable {ι σ τ ε α β κ : Type}

def andThen : Script ι σ ε α → (α → Script ι σ ε β) → Script ι σ ε β
  | .done (.ok a), f => f a
  | .done (.error e), _ => .done (.error e)
  | .step name change next, f => .step name change fun s => (next s).andThen f

instance : Monad (Script ι σ ε) where
  pure a := .done (.ok a)
  bind := andThen

/-- A procedure that nothing interrupts. -/
def call (name : ι) (x : Proc σ ε α) : Script ι σ ε α :=
  .step name (fun s => (x s).2) fun s => .done (x s).1

def throw (e : ε) : Script ι σ ε α := .done (.error e)

/-- The caller receives a failure as a value. -/
def attempt : Script ι σ ε α → Script ι σ ε (Except ε α)
  | .done result => .done (.ok result)
  | .step name change next => .step name change fun s => (next s).attempt

/-- The loop stops at the first failure. -/
def forEach (xs : List κ) (body : κ → Script ι σ ε Unit) : Script ι σ ε Unit :=
  match xs with
  | [] => pure ()
  | x :: rest => do
      body x
      forEach rest body

/-- The program when nothing else happens. -/
def alone : Script ι σ ε α → Proc σ ε α
  | .done result => fun s => (result, s)
  | .step _ change next => fun s => (next s).alone (change s)

/-- The script does to a part of its state what the procedure does to that part alone, and it returns at
least as much. -/
def Follows (view : σ → τ) (read : α → β) (script : Script ι σ ε α) (x : Proc τ ε β) : Prop :=
  ∀ s, (x (view s)).1 = (script.alone s).1.map read ∧ (x (view s)).2 = view (script.alone s).2

theorem alone_bind (script : Script ι σ ε α) (f : α → Script ι σ ε β) (s : σ) :
    (script >>= f).alone s = (script.alone >>= fun a => (f a).alone) s := by
  induction script generalizing s with
  | done result => cases result <;> rfl
  | step name change next ih => exact ih s (change s)

theorem alone_attempt (script : Script ι σ ε α) (s : σ) :
    script.attempt.alone s = Proc.attempt script.alone s := by
  induction script generalizing s with
  | done result => rfl
  | step name change next ih => exact ih s (change s)

namespace Follows

variable {γ δ : Type} {view : σ → τ} {read : α → β}

theorem ret (a : α) : Follows view read (pure a : Script ι σ ε α) (pure (read a)) := fun _ => ⟨rfl, rfl⟩

theorem throw (e : ε) : Follows view read (Script.throw e : Script ι σ ε α) (Proc.throw e) :=
  fun _ => ⟨rfl, rfl⟩

theorem call {name : ι} {y : Proc σ ε α} {x : Proc τ ε α} (result : ∀ s, (x (view s)).1 = (y s).1)
    (state : ∀ s, (x (view s)).2 = view (y s).2) : Follows view id (Script.call name y) x := by
  intro s
  refine ⟨?_, state s⟩
  rw [result s]
  show (y s).1 = (y s).1.map id
  cases (y s).1 <;> rfl

theorem bind {script : Script ι σ ε α} {x : Proc τ ε β} {f : α → Script ι σ ε γ} {g : β → Proc τ ε δ}
    {read' : γ → δ} (first : Follows view read script x)
    (second : ∀ a, Follows view read' (f a) (g (read a))) : Follows view read' (script >>= f) (x >>= g) := by
  intro s
  obtain ⟨result, state⟩ := first s
  rw [alone_bind, Proc.bind_apply, Proc.bind_apply]
  rcases here : script.alone s with ⟨answer, next⟩
  rcases there : x (view s) with ⟨other, last⟩
  rw [here, there] at result state
  cases answer with
  | ok a =>
      cases result
      cases state
      exact second a next
  | error e =>
      cases result
      exact ⟨rfl, state⟩

theorem attempt {script : Script ι σ ε α} {x : Proc τ ε β} (follows : Follows view read script x) :
    Follows view (Except.map read) script.attempt (Proc.attempt x) := by
  intro s
  obtain ⟨result, state⟩ := follows s
  rw [alone_attempt]
  exact ⟨congrArg Except.ok result, state⟩

theorem forEach {xs : List κ} {body : κ → Script ι σ ε Unit} {other : κ → Proc τ ε Unit}
    (each : ∀ x, Follows view id (body x) (other x)) :
    Follows view id (Script.forEach xs body) (Proc.forEach xs other) := by
  induction xs with
  | nil => exact ret ()
  | cons x rest ih => exact bind (each x) fun _ => ih

end Follows

end Script

/-- A run of a program among other things that happen before, between and after its steps. -/
inductive Course {ι σ ε α : Type} (between : σ → σ → Prop) (own : ι → σ → σ → Prop) :
    Script ι σ ε α → σ → Except ε α → σ → Prop
  | done (result : Except ε α) (s : σ) : Course between own (.done result) s result s
  | other {script : Script ι σ ε α} {s next last : σ} {result : Except ε α} (happens : between s next)
      (rest : Course between own script next result last) : Course between own script s result last
  | step {name : ι} {change : σ → σ} {next : σ → Script ι σ ε α} {s last : σ} {result : Except ε α}
      (fits : own name s (change s)) (rest : Course between own (next s) (change s) result last) :
      Course between own (.step name change next) s result last

namespace Script

variable {ι σ ε α : Type}

/-- The run in which a schedule says what else happens before each step. -/
def play : List (Option (σ → σ)) → Script ι σ ε α → σ → Except ε α × σ
  | _, .done result, s => (result, s)
  | some other :: rest, .step _ change next, s => play rest (next (other s)) (change (other s))
  | none :: rest, .step _ change next, s => play rest (next s) (change s)
  | [], .step _ change next, s => play [] (next s) (change s)

/-- All that happens passes a check. -/
def playable (otherOk : σ → σ → Bool) (ownOk : ι → σ → σ → Bool) :
    List (Option (σ → σ)) → Script ι σ ε α → σ → Bool
  | _, .done _, _ => true
  | some other :: rest, .step name change next, s =>
      otherOk s (other s) && ownOk name (other s) (change (other s)) &&
        playable otherOk ownOk rest (next (other s)) (change (other s))
  | none :: rest, .step name change next, s =>
      ownOk name s (change s) && playable otherOk ownOk rest (next s) (change s)
  | [], .step name change next, s => ownOk name s (change s) && playable otherOk ownOk [] (next s) (change s)

end Script

section

variable {ι σ ε α β κ : Type} {between : σ → σ → Prop} {own : ι → σ → σ → Prop}

theorem course_play (otherOk : σ → σ → Bool) (ownOk : ι → σ → σ → Bool) {schedule : List (Option (σ → σ))}
    (others : ∀ other, some other ∈ schedule → ∀ s, otherOk s (other s) = true → between s (other s))
    (steps : ∀ name s next, ownOk name s next = true → own name s next) {script : Script ι σ ε α} {s : σ}
    (checked : script.playable otherOk ownOk schedule s = true) :
    Course between own script s (script.play schedule s).1 (script.play schedule s).2 := by
  induction script generalizing s schedule with
  | done result => cases schedule <;> exact .done _ _
  | step name change next ih =>
      cases schedule with
      | nil =>
          rw [Script.playable, Bool.and_eq_true] at checked
          exact .step (steps _ _ _ checked.1) (ih s others checked.2)
      | cons first rest =>
          have later : ∀ other, some other ∈ rest → ∀ s, otherOk s (other s) = true → between s (other s) :=
            fun other inside => others other (List.mem_cons_of_mem _ inside)
          cases first with
          | none =>
              rw [Script.playable, Bool.and_eq_true] at checked
              exact .step (steps _ _ _ checked.1) (ih s later checked.2)
          | some other =>
              rw [Script.playable, Bool.and_eq_true, Bool.and_eq_true] at checked
              apply Course.other (others other List.mem_cons_self s checked.1.1)
              exact .step (steps _ _ _ checked.1.2) (ih (other s) later checked.2)

theorem course_done {result answer : Except ε α} {s last : σ}
    (course : Course between own (.done result : Script ι σ ε α) s answer last) :
    answer = result ∧ Relation.ReflTransGen between s last := by
  generalize equal : Script.done result = script at course
  induction course with
  | done answer s =>
      cases equal
      exact ⟨rfl, .refl⟩
  | other happens _ ih => exact ⟨(ih equal).1, .head happens (ih equal).2⟩
  | step => cases equal

theorem course_call {name : ι} {x : Proc σ ε α} {s last : σ} {result : Except ε α}
    (course : Course between own (Script.call name x) s result last) :
    ∃ s', Relation.ReflTransGen between s s' ∧ own name s' (x s').2 ∧ result = (x s').1 ∧
      Relation.ReflTransGen between (x s').2 last := by
  generalize equal : Script.call name x = script at course
  induction course with
  | done => cases equal
  | other happens _ ih =>
      obtain ⟨s', early, rest⟩ := ih equal
      exact ⟨s', .head happens early, rest⟩
  | step fits rest =>
      cases equal
      obtain ⟨same, later⟩ := course_done rest
      exact ⟨_, .refl, fits, same, later⟩

/-- A course of two programs in sequence is one of each, unless the first one fails. -/
theorem course_bind {script : Script ι σ ε α} {f : α → Script ι σ ε β} {s last : σ} {result : Except ε β}
    (course : Course between own (script >>= f) s result last) :
    (∃ a middle, Course between own script s (.ok a) middle ∧ Course between own (f a) middle result last) ∨
      ∃ e, result = .error e ∧ Course between own script s (.error e) last := by
  generalize equal : script >>= f = whole at course
  induction course generalizing script with
  | done answer s =>
      cases script with
      | done first =>
          cases first with
          | ok a =>
              have same : f a = .done answer := equal
              exact .inl ⟨a, s, .done _ _, same ▸ .done _ _⟩
          | error e =>
              cases equal
              exact .inr ⟨e, rfl, .done _ _⟩
      | step => cases equal
  | other happens _ ih =>
      rcases ih equal with ⟨a, middle, first, second⟩ | ⟨e, failed, first⟩
      · exact .inl ⟨a, middle, .other happens first, second⟩
      · exact .inr ⟨e, failed, .other happens first⟩
  | step fits rest ih =>
      cases script with
      | done first =>
          cases first with
          | ok a =>
              have same : f a = .step _ _ _ := equal
              exact .inl ⟨a, _, .done _ _, same ▸ .step fits rest⟩
          | error e => cases equal
      | step name change next =>
          cases equal
          rcases ih rfl with ⟨a, middle, first, second⟩ | ⟨e, failed, first⟩
          · exact .inl ⟨a, middle, .step fits first, second⟩
          · exact .inr ⟨e, failed, .step fits first⟩

theorem course_attempt {script : Script ι σ ε α} {s last : σ} {result : Except ε (Except ε α)}
    (course : Course between own script.attempt s result last) :
    ∃ answer, result = .ok answer ∧ Course between own script s answer last := by
  generalize equal : script.attempt = whole at course
  induction course generalizing script with
  | done answer s =>
      cases script with
      | done first =>
          cases equal
          exact ⟨first, rfl, .done _ _⟩
      | step => cases equal
  | other happens _ ih =>
      obtain ⟨answer, same, first⟩ := ih equal
      exact ⟨answer, same, .other happens first⟩
  | step fits rest ih =>
      cases script with
      | done => cases equal
      | step name change next =>
          cases equal
          obtain ⟨answer, same, first⟩ := ih rfl
          exact ⟨answer, same, .step fits first⟩

end

/-- What else happens does not disturb the condition. -/
def Stable {σ : Type} (between : σ → σ → Prop) (P : σ → Prop) : Prop := ∀ s next, between s next → P s → P next

/-- From the condition every course leads to an outcome that satisfies its own condition. -/
def Relies {ι σ ε α : Type} (between : σ → σ → Prop) (own : ι → σ → σ → Prop) (P : σ → Prop)
    (script : Script ι σ ε α) (Q : α → σ → Prop) (E : ε → σ → Prop) : Prop :=
  ∀ s result last, Course between own script s result last → P s → Outcome Q E (result, last)

theorem Stable.after {σ : Type} {between : σ → σ → Prop} {P : σ → Prop} (stable : Stable between P) {s last : σ}
    (later : Relation.ReflTransGen between s last) (holds : P s) : P last := by
  induction later with
  | refl => exact holds
  | tail _ happens ih => exact stable _ _ happens ih

namespace Relies

variable {ι σ ε α β κ : Type} {between : σ → σ → Prop} {own : ι → σ → σ → Prop} {P I : σ → Prop}
  {Q : α → σ → Prop} {R : β → σ → Prop} {E : ε → σ → Prop}

theorem ret {a : α} (stable : Stable between (Q a)) (holds : ∀ s, P s → Q a s) :
    Relies between own P (pure a : Script ι σ ε α) Q E := by
  intro s result last course before
  obtain ⟨rfl, later⟩ := course_done course
  exact stable.after later (holds s before)

theorem call {name : ι} {x : Proc σ ε α} (before : Stable between P) (after : ∀ a, Stable between (Q a))
    (failing : ∀ e, Stable between (E e)) (each : ∀ s, P s → own name s (x s).2 → Outcome Q E (x s)) :
    Relies between own P (Script.call name x) Q E := by
  intro s result last course holds
  obtain ⟨s', early, fits, rfl, later⟩ := course_call course
  have outcome := each s' (before.after early holds) fits
  rcases equal : x s' with ⟨result, next⟩
  rw [equal] at outcome later
  cases result with
  | ok a => exact (after a).after later outcome
  | error e => exact (failing e).after later outcome

theorem bind {script : Script ι σ ε α} {f : α → Script ι σ ε β} (first : Relies between own P script Q E)
    (second : ∀ a, Relies between own (Q a) (f a) R E) : Relies between own P (script >>= f) R E := by
  intro s result last course holds
  rcases course_bind course with ⟨a, middle, front, back⟩ | ⟨e, rfl, front⟩
  · exact second a _ _ _ back (first _ _ _ front holds)
  · exact first _ _ _ front holds

theorem attempt {script : Script ι σ ε α} {Q : Except ε α → σ → Prop}
    (relies : Relies between own P script (fun a => Q (.ok a)) fun e => Q (.error e)) :
    Relies between own P script.attempt Q E := by
  intro s result last course holds
  obtain ⟨answer, rfl, front⟩ := course_attempt course
  have outcome := relies _ _ _ front holds
  cases answer <;> exact outcome

/-- What every step keeps and nothing else disturbs holds throughout. -/
theorem keep (stable : Stable between I) (script : Script ι σ ε α)
    (keeps : ∀ name s next, own name s next → I s → I next) :
    Relies between own I script (fun _ => I) fun _ => I := by
  intro s result last course holds
  suffices I last by
    cases result <;> exact this
  induction course with
  | done => exact holds
  | other happens _ ih => exact ih (stable _ _ happens holds)
  | step fits _ ih => exact ih (keeps _ _ _ fits holds)

theorem conseq {script : Script ι σ ε α} {U : σ → Prop} {V : α → σ → Prop} {F : ε → σ → Prop}
    (relies : Relies between own P script Q E) (before : ∀ s, U s → P s) (after : ∀ a s, Q a s → V a s)
    (failed : ∀ e s, E e s → F e s) : Relies between own U script V F := by
  intro s result last course holds
  have outcome := relies s result last course (before s holds)
  cases result with
  | ok a => exact after a _ outcome
  | error e => exact failed e _ outcome

/-- A loop keeps what each of its rounds keeps. -/
theorem forEach {body : κ → Script ι σ ε Unit} (stable : Stable between I) (xs : List κ)
    (each : ∀ x ∈ xs, Relies between own I (body x) (fun _ => I) E) :
    Relies between own I (Script.forEach xs body) (fun _ => I) E := by
  induction xs with
  | nil => exact ret stable fun _ holds => holds
  | cons x rest ih =>
      apply bind (each x List.mem_cons_self)
      intro _
      exact ih fun other inside => each other (List.mem_cons_of_mem _ inside)

end Relies

end Interference

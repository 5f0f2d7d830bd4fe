import Mathlib.Data.List.Basic

namespace Effect

/-- A procedure keeps the state it reached when it fails. -/
def Proc (σ ε α : Type) := σ → Except ε α × σ

namespace Proc

variable {σ τ ε α β ι : Type}

/-- A failure skips the continuation. -/
def andThen (x : Proc σ ε α) (f : α → Proc σ ε β) : Proc σ ε β := fun s =>
  match x s with
  | (.ok a, next) => f a next
  | (.error e, next) => (.error e, next)

instance : Monad (Proc σ ε) where
  pure a := fun s => (.ok a, s)
  bind := andThen

def get : Proc σ ε σ := fun s => (.ok s, s)

def modify (f : σ → σ) : Proc σ ε Unit := fun s => (.ok (), f s)

def throw (e : ε) : Proc σ ε α := fun s => (.error e, s)

def ofExcept (r : Except ε α) : Proc σ ε α := fun s => (r, s)

/-- The caller receives a failure as a value. -/
def attempt (x : Proc σ ε α) : Proc σ ε (Except ε α) := fun s => (.ok (x s).1, (x s).2)

def when (c : Prop) [Decidable c] (x : Proc σ ε Unit) : Proc σ ε Unit := if c then x else pure ()

/-- The loop stops at the first failure. -/
def forEach (xs : List ι) (body : ι → Proc σ ε Unit) : Proc σ ε Unit :=
  match xs with
  | [] => pure ()
  | x :: rest => do
      body x
      forEach rest body

/-- A procedure on one part of a larger state. -/
def zoom (view : τ → σ) (put : σ → τ → τ) (x : Proc σ ε α) : Proc τ ε α := fun t =>
  ((x (view t)).1, put (x (view t)).2 t)

@[simp] theorem pure_apply (a : α) (s : σ) : (pure a : Proc σ ε α) s = (.ok a, s) := rfl

theorem bind_apply (x : Proc σ ε α) (f : α → Proc σ ε β) (s : σ) :
    (x >>= f) s = match x s with
      | (.ok a, next) => f a next
      | (.error e, next) => (.error e, next) := rfl

@[simp] theorem get_apply (s : σ) : (get : Proc σ ε σ) s = (.ok s, s) := rfl

@[simp] theorem modify_apply (f : σ → σ) (s : σ) : (modify f : Proc σ ε Unit) s = (.ok (), f s) := rfl

@[simp] theorem throw_apply (e : ε) (s : σ) : (throw e : Proc σ ε α) s = (.error e, s) := rfl

@[simp] theorem forEach_nil (body : ι → Proc σ ε Unit) :
    forEach [] body = (pure () : Proc σ ε Unit) := rfl

@[simp] theorem forEach_cons (x : ι) (rest : List ι) (body : ι → Proc σ ε Unit) :
    forEach (x :: rest) body = body x >>= fun _ => forEach rest body := rfl

end Proc

/-- The outcome satisfies its own condition, whether the procedure returns or fails. -/
def Outcome {σ ε α : Type} (Q : α → σ → Prop) (E : ε → σ → Prop) : Except ε α × σ → Prop
  | (.ok a, s) => Q a s
  | (.error e, s) => E e s

/-- A triple relates the first state to the returned value or to the failure. -/
def Triple {σ ε α : Type} (P : σ → Prop) (x : Proc σ ε α) (Q : α → σ → Prop)
    (E : ε → σ → Prop) : Prop :=
  ∀ s, P s → Outcome Q E (x s)

namespace Triple

open Proc

variable {σ τ ε α β ι : Type} {P U : σ → Prop} {Q V : α → σ → Prop} {R : β → σ → Prop}
  {E F : ε → σ → Prop}

theorem conseq {x : Proc σ ε α} (triple : Triple P x Q E) (before : ∀ s, U s → P s)
    (after : ∀ a s, Q a s → V a s) (failed : ∀ e s, E e s → F e s) : Triple U x V F := by
  intro s holds
  have outcome := triple s (before s holds)
  rcases equal : x s with ⟨result, next⟩
  rw [equal] at outcome
  cases result with
  | ok a => exact after a next outcome
  | error e => exact failed e next outcome

theorem weaken {x : Proc σ ε α} (triple : Triple P x Q E) (before : ∀ s, U s → P s) :
    Triple U x Q E :=
  triple.conseq before (fun _ _ => id) (fun _ _ => id)

theorem strengthen {x : Proc σ ε α} (triple : Triple P x Q E)
    (after : ∀ a s, Q a s → V a s) : Triple P x V E :=
  triple.conseq (fun _ => id) after (fun _ _ => id)

theorem ret {a : α} (holds : ∀ s, P s → Q a s) : Triple P (pure a : Proc σ ε α) Q E :=
  fun s before => holds s before

/-- Conditions that always hold hold after any procedure. -/
theorem trivially {x : Proc σ ε α} (after : ∀ a s, Q a s) (failed : ∀ e s, E e s) : Triple P x Q E := by
  intro s _
  rcases x s with ⟨result, next⟩
  cases result
  · exact failed _ next
  · exact after _ next

theorem bind {x : Proc σ ε α} {f : α → Proc σ ε β} (first : Triple P x Q E)
    (second : ∀ a, Triple (Q a) (f a) R E) : Triple P (x >>= f) R E := by
  intro s before
  have outcome := first s before
  rw [bind_apply]
  rcases equal : x s with ⟨result, next⟩
  rw [equal] at outcome
  cases result with
  | ok a => exact second a next outcome
  | error e => exact outcome

/-- A step without a value passes its condition on. -/
theorem seq {M : σ → Prop} {x : Proc σ ε Unit} {y : Proc σ ε β}
    (first : Triple P x (fun _ => M) E) (second : Triple M y R E) :
    Triple P (x >>= fun _ => y) R E :=
  bind first fun _ => second

theorem get {Q : σ → σ → Prop} (holds : ∀ s, P s → Q s s) :
    Triple P (Proc.get : Proc σ ε σ) Q E :=
  fun s before => holds s before

theorem modify {Q : Unit → σ → Prop} {f : σ → σ} (holds : ∀ s, P s → Q () (f s)) :
    Triple P (Proc.modify f : Proc σ ε Unit) Q E :=
  fun s before => holds s before

theorem throw {e : ε} (holds : ∀ s, P s → E e s) : Triple P (Proc.throw e : Proc σ ε α) Q E :=
  fun s before => holds s before

theorem ofExcept {r : Except ε α} (returned : ∀ a, r = .ok a → ∀ s, P s → Q a s)
    (failed : ∀ e, r = .error e → ∀ s, P s → E e s) : Triple P (Proc.ofExcept r) Q E := by
  intro s before
  cases r with
  | ok a => exact returned a rfl s before
  | error e => exact failed e rfl s before

theorem attempt {x : Proc σ ε α} {Q : Except ε α → σ → Prop}
    (triple : Triple P x (fun a => Q (.ok a)) (fun e => Q (.error e))) :
    Triple P (Proc.attempt x) Q E := by
  intro s before
  have outcome := triple s before
  change Q (x s).1 (x s).2
  rcases equal : x s with ⟨result, next⟩
  rw [equal] at outcome
  cases result <;> exact outcome

theorem ite {c : Prop} [Decidable c] {x y : Proc σ ε α} (yes : c → Triple P x Q E)
    (no : ¬ c → Triple P y Q E) : Triple P (if c then x else y) Q E := by
  split
  next holds => exact yes holds
  next fails => exact no fails

theorem when {Q : Unit → σ → Prop} {c : Prop} [Decidable c] {x : Proc σ ε Unit}
    (yes : c → Triple P x Q E) (no : ¬ c → ∀ s, P s → Q () s) : Triple P (Proc.when c x) Q E :=
  ite yes fun fails => ret (no fails)

theorem both {x : Proc σ ε α} (left : Triple P x Q E) (right : Triple P x V F) :
    Triple P x (fun a s => Q a s ∧ V a s) (fun e s => E e s ∧ F e s) := by
  intro s before
  have first := left s before
  have second := right s before
  rcases equal : x s with ⟨result, next⟩
  rw [equal] at first second
  cases result <;> exact ⟨first, second⟩

/-- A fact about the first state may be used while proving the rest. -/
theorem assume {x : Proc σ ε α} {C : Prop} (known : ∀ s, P s → C) (triple : C → Triple P x Q E) :
    Triple P x Q E :=
  fun s before => triple (known s before) s before

/-- Each first state may be considered separately. -/
theorem fix {x : Proc σ ε α} (each : ∀ s, P s → Triple (· = s) x Q E) : Triple P x Q E :=
  fun s before => each s before s rfl

/-- What holds whatever the outcome holds of the state that is reached. -/
theorem reached {x : Proc σ ε α} {R : σ → Prop} (triple : Triple P x (fun _ => R) (fun _ => R)) {s : σ}
    (before : P s) : R (x s).2 := by
  have outcome := triple s before
  rcases equal : x s with ⟨result, next⟩
  rw [equal] at outcome
  cases result <;> exact outcome

theorem returned {x : Proc σ ε α} (triple : Triple P x Q E) {s : σ} {a : α} (before : P s)
    (result : (x s).1 = .ok a) : Q a (x s).2 := by
  have outcome := triple s before
  rcases equal : x s with ⟨answer, next⟩
  rw [equal] at outcome result
  cases result
  exact outcome

/-- The condition of a loop names the elements that remain. -/
theorem forEach {body : ι → Proc σ ε Unit} (I : List ι → σ → Prop) (xs : List ι)
    (step : ∀ x rest, x :: rest <:+ xs → Triple (I (x :: rest)) (body x) (fun _ => I rest) E) :
    Triple (I xs) (Proc.forEach xs body) (fun _ => I []) E := by
  induction xs with
  | nil => exact ret fun _ holds => holds
  | cons x rest ih =>
      rw [forEach_cons]
      refine seq (step x rest (List.suffix_refl _)) (ih ?_)
      intro y tail suffix
      exact step y tail (suffix.trans (List.suffix_cons x rest))

/-- A loop keeps what each of its rounds keeps. -/
theorem forEach_keep {body : ι → Proc σ ε Unit} (I : σ → Prop) (xs : List ι)
    (step : ∀ x ∈ xs, Triple I (body x) (fun _ => I) E) :
    Triple I (Proc.forEach xs body) (fun _ => I) E :=
  forEach (fun _ => I) xs fun x _ suffix => step x (suffix.subset (List.mem_cons_self ..))

/-- The rest of the larger state does not change. -/
theorem zoom {view : τ → σ} {put : σ → τ → τ} {x : Proc σ ε α} {U : τ → Prop}
    {V : α → τ → Prop} {F : ε → τ → Prop} (each : ∀ t, U t →
      Triple (· = view t) x (fun a s => V a (put s t)) (fun e s => F e (put s t))) :
    Triple U (Proc.zoom view put x) V F := by
  intro t before
  have outcome := each t before (view t) rfl
  change Outcome V F ((x (view t)).1, put (x (view t)).2 t)
  rcases equal : x (view t) with ⟨result, next⟩
  rw [equal] at outcome
  cases result <;> exact outcome

end Triple

/-- The procedure keeps a condition whatever its outcome, and what it returns has a property. -/
def Keeping {σ ε α : Type} (P : σ → Prop) (x : Proc σ ε α) (F : α → Prop) : Prop :=
  Triple P x (fun a s => P s ∧ F a) (fun _ => P)

namespace Keeping

open Proc

variable {σ τ ε α β ι : Type} {P : σ → Prop} {F : α → Prop} {G : β → Prop}

theorem bind {x : Proc σ ε α} {f : α → Proc σ ε β} (first : Keeping P x F)
    (second : ∀ a, F a → Keeping P (f a) G) : Keeping P (x >>= f) G :=
  Triple.bind first fun a => Triple.assume (fun _ holds => holds.2) fun known =>
    (second a known).weaken fun _ holds => holds.1

theorem ret {a : α} (holds : F a) : Keeping P (pure a : Proc σ ε α) F :=
  Triple.ret fun _ before => ⟨before, holds⟩

theorem throw {e : ε} : Keeping P (Proc.throw e : Proc σ ε α) F :=
  Triple.throw fun _ before => before

theorem modify {f : σ → σ} (kept : ∀ s, P s → P (f s)) :
    Keeping P (Proc.modify f : Proc σ ε Unit) fun _ => True :=
  Triple.modify fun s before => ⟨kept s before, trivial⟩

theorem weaken {x : Proc σ ε α} {H : α → Prop} (keeping : Keeping P x F) (imp : ∀ a, F a → H a) :
    Keeping P x H :=
  keeping.strengthen fun a _ holds => ⟨holds.1, imp a holds.2⟩

theorem attempt {x : Proc σ ε α} (keeping : Keeping P x F) :
    Keeping P (Proc.attempt x : Proc σ ε _) fun r => ∀ a, r = .ok a → F a := by
  refine Triple.attempt (keeping.conseq (fun _ => id) (fun a s holds => ⟨holds.1, ?_⟩)
    fun e s holds => ⟨holds, ?_⟩)
  · intro b equal
    cases equal
    exact holds.2
  · intro b equal
    cases equal

theorem ite {c : Prop} [Decidable c] {x y : Proc σ ε α} (yes : c → Keeping P x F)
    (no : ¬ c → Keeping P y F) : Keeping P (if c then x else y) F :=
  Triple.ite yes no

theorem when {c : Prop} [Decidable c] {x : Proc σ ε Unit} (yes : c → Keeping P x fun _ => True) :
    Keeping P (Proc.when c x) fun _ => True :=
  Triple.when yes fun _ _ before => ⟨before, trivial⟩

theorem forEach {xs : List ι} {body : ι → Proc σ ε Unit} (each : ∀ x ∈ xs, Keeping P (body x) fun _ => True) :
    Keeping P (Proc.forEach xs body) fun _ => True :=
  (Triple.forEach_keep _ xs fun x inside => (each x inside).strengthen fun _ _ holds => holds.1).strengthen
    fun _ _ holds => ⟨holds, trivial⟩

/-- A condition on one part of a larger state is kept by a procedure on that part. -/
theorem zoom {view : τ → σ} {put : σ → τ → τ} {x : Proc σ ε α} (lawful : ∀ s t, view (put s t) = s)
    (keeping : Keeping P x F) : Keeping (fun t => P (view t)) (Proc.zoom view put x) F := by
  have back : ∀ s t, P s → P (view (put s t)) := fun s t holds => by
    rw [lawful]
    exact holds
  refine Triple.zoom fun t before => Triple.conseq keeping (fun _ equal => equal ▸ before) ?_ ?_
  · exact fun a s holds => ⟨back s t holds.1, holds.2⟩
  · exact fun e s holds => back s t holds

end Keeping

end Effect

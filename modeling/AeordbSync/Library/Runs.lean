import Mathlib.Data.List.Basic

namespace Runs

variable {σ α : Type*}

/-- A run takes the steps of a list, each of which the state before it allows. -/
inductive Run (step : σ → α → Option σ) (allowed : σ → α → Prop) : σ → List α → σ → Prop
  | nil (s : σ) : Run step allowed s [] s
  | cons {s middle last : σ} {action : α} {actions : List α} (taken : step s action = some middle)
      (fits : allowed s action) (rest : Run step allowed middle actions last) :
      Run step allowed s (action :: actions) last

/-- The state after a list of steps, when each of them can be taken. -/
def after (step : σ → α → Option σ) (s : σ) (actions : List α) : Option σ := actions.foldlM step s

variable {step : σ → α → Option σ} {allowed : σ → α → Prop}

/-- What holds at first and is kept by every step holds after every run. -/
theorem Run.invariant {I : σ → Prop} {first last : σ} {actions : List α}
    (run : Run step allowed first actions last)
    (keeps : ∀ s next action, I s → allowed s action → step s action = some next → I next)
    (start : I first) : I last := by
  induction run with
  | nil => exact start
  | cons taken fits _ ih => exact ih (keeps _ _ _ start fits taken)

theorem Run.mono {other : σ → α → Prop} {first last : σ} {actions : List α}
    (run : Run step allowed first actions last) (weaker : ∀ s action, allowed s action → other s action) :
    Run step other first actions last := by
  induction run with
  | nil s => exact .nil s
  | cons taken fits _ ih => exact .cons taken (weaker _ _ fits) ih

theorem Run.allowing {other : σ → α → Prop} {first last : σ} {actions : List α}
    (run : Run step allowed first actions last) (always : ∀ action ∈ actions, ∀ s, other s action) :
    Run step other first actions last := by
  induction run with
  | nil s => exact .nil s
  | cons taken _ _ ih =>
      exact .cons taken (always _ List.mem_cons_self _) (ih fun _ later => always _ (List.mem_cons_of_mem _ later))

/-- A run may be cut where its list of steps is. -/
theorem Run.append {first middle last : σ} {actions more : List α}
    (front : Run step allowed first actions middle) (back : Run step allowed middle more last) :
    Run step allowed first (actions ++ more) last := by
  induction front with
  | nil => exact back
  | cons taken fits _ ih => exact .cons taken fits (ih back)

theorem run_of_after {first last : σ} {actions : List α} (ran : after step first actions = some last) :
    Run step (fun _ _ => True) first actions last := by
  induction actions generalizing first with
  | nil =>
      cases ran
      exact .nil _
  | cons action rest ih =>
      obtain ⟨middle, taken, later⟩ := Option.bind_eq_some_iff.mp ran
      exact .cons taken trivial (ih later)

/-- Where a step leads to a good state just when it is allowed, every state of a run is good just when each of its
steps is allowed. -/
theorem Run.every_iff {good : σ → Prop} {first last : σ} {actions : List α}
    (run : Run step (fun _ _ => True) first actions last)
    (each : ∀ s action next, step s action = some next → (good next ↔ allowed s action)) (start : good first) :
    (∀ front back middle, actions = front ++ back → Run step (fun _ _ => True) first front middle → good middle) ↔
      Run step allowed first actions last := by
  induction run with
  | nil s =>
      constructor
      · intro _
        exact .nil s
      · intro _ front back middle equal before
        obtain rfl : front = [] := (List.append_eq_nil_iff.mp equal.symm).1
        cases before
        exact start
  | @cons s next last action actions taken _ rest ih =>
      constructor
      · intro every
        have reached : good next := every [action] actions next rfl (.cons taken trivial (.nil next))
        refine .cons taken ((each _ _ _ taken).mp reached) ((ih reached).mp ?_)
        intro front back middle equal before
        exact every (action :: front) back middle (by rw [equal, List.cons_append]) (.cons taken trivial before)
      · intro whole front back middle equal before
        cases whole with
        | cons again fits later =>
            obtain rfl := Option.some.inj (taken.symm.trans again)
            have reached : good next := (each _ _ _ taken).mpr fits
            cases before with
            | nil => exact start
            | @cons _ other _ _ names begun _ ahead =>
                obtain ⟨rfl, shifted⟩ := List.cons_eq_cons.mp equal
                obtain rfl := Option.some.inj (taken.symm.trans begun)
                exact (ih reached).mpr later _ back middle shifted ahead

/-- A run can be had by taking its steps, where it can be decided what is allowed. -/
theorem run_of_checked [decided : ∀ s action, Decidable (allowed s action)] {first last : σ} {actions : List α}
    (ran : after (fun s action => if allowed s action then step s action else none) first actions = some last) :
    Run step allowed first actions last := by
  induction actions generalizing first with
  | nil =>
      cases ran
      exact .nil _
  | cons action rest ih =>
      obtain ⟨middle, taken, later⟩ := Option.bind_eq_some_iff.mp ran
      obtain ⟨fits, taken⟩ := Option.ite_none_right_eq_some.mp taken
      exact .cons taken fits (ih later)

end Runs

import Mathlib.Data.List.Forall2

namespace Simulation

variable {σ τ κ α β : Type}

/-- The answers of a machine to a history of calls. -/
def answers (step : σ → κ → α × σ) : σ → List κ → List α
  | _, [] => []
  | s, call :: rest => (step s call).1 :: answers step (step s call).2 rest

/-- Where a history of calls leaves a machine. -/
def final (step : σ → κ → α × σ) (s : σ) (calls : List κ) : σ :=
  calls.foldl (fun s call => (step s call).2) s

/-- From related states an allowed call gets answers that agree and leads to related states. -/
def Simulates (step : σ → κ → α × σ) (spec : τ → κ → β × τ) (related : σ → τ → Prop)
    (agrees : α → β → Prop) (allowed : κ → Prop) : Prop :=
  ∀ s t call, related s t → allowed call →
    agrees (step s call).1 (spec t call).1 ∧ related (step s call).2 (spec t call).2

variable {step : σ → κ → α × σ} {spec : τ → κ → β × τ} {related : σ → τ → Prop} {agrees : α → β → Prop}
  {allowed : κ → Prop}

/-- No history of allowed calls tells the two machines apart. -/
theorem Simulates.answers (simulates : Simulates step spec related agrees allowed) {s : σ} {t : τ}
    (start : related s t) {calls : List κ} (fits : ∀ call ∈ calls, allowed call) :
    List.Forall₂ agrees (answers step s calls) (answers spec t calls) := by
  induction calls generalizing s t with
  | nil => exact .nil
  | cons call rest ih =>
      obtain ⟨agree, next⟩ := simulates s t call start (fits call List.mem_cons_self)
      exact .cons agree (ih next fun other inside => fits other (List.mem_cons_of_mem _ inside))

theorem Simulates.final (simulates : Simulates step spec related agrees allowed) {s : σ} {t : τ}
    (start : related s t) {calls : List κ} (fits : ∀ call ∈ calls, allowed call) :
    related (final step s calls) (final spec t calls) := by
  induction calls generalizing s t with
  | nil => exact start
  | cons call rest ih =>
      obtain ⟨-, next⟩ := simulates s t call start (fits call List.mem_cons_self)
      exact ih next fun other inside => fits other (List.mem_cons_of_mem _ inside)

end Simulation

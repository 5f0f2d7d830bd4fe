import AeordbSync.Library.Effect

namespace Persisted
open Effect Proc

/-- A value in memory, and what the file that keeps it holds. -/
structure Store (α β : Type) where
  memory : α
  file : Option β

variable {α β ε ω : Type}

namespace Store

/-- A procedure on the file alone. -/
def onFile (x : Proc (Option β) ε ω) : Proc (Store α β) ε ω :=
  zoom Store.file (fun file s => { s with file := file }) x

/-- The value in memory changes first and is saved afterwards. -/
def changeThenSave (save : α → Proc (Option β) ε Unit) (change : α → α) : Proc (Store α β) ε Unit := do
  modify fun s => { s with memory := change s.memory }
  let s ← get
  onFile (save s.memory)

/-- The value in memory changes once the new value is saved. -/
def saveThenCommit (save : α → Proc (Option β) ε Unit) (change : α → Except ε α) :
    Proc (Store α β) ε α := do
  let s ← get
  let next ← Proc.ofExcept (change s.memory)
  onFile (save next)
  modify fun s => { s with memory := next }
  pure next

/-- A store that commits last keeps its value when it fails. -/
theorem saveThenCommit_failed {save : α → Proc (Option β) ε Unit} {change : α → Except ε α}
    {s : Store α β} {error : ε} (failed : (saveThenCommit save change s).1 = .error error) :
    (saveThenCommit save change s).2.memory = s.memory := by
  cases changed : change s.memory with
  | error refused => simp [saveThenCommit, bind_apply, Proc.ofExcept, changed]
  | ok next =>
      cases saved : (save next s.file).1 with
      | error refused => simp [saveThenCommit, bind_apply, Proc.ofExcept, onFile, zoom, changed, saved]
      | ok done => simp [saveThenCommit, bind_apply, Proc.ofExcept, onFile, zoom, changed, saved] at failed

/-- The answer of a call and the value it leaves are told by the value it finds. -/
def FromMemory (call : Proc (Store α β) ε ω) : Prop :=
  ∀ a b : Store α β, a.memory = b.memory →
    (call a).1 = (call b).1 ∧ (call a).2.memory = (call b).2.memory

/-- Where such a call succeeds, the value that it finds also tells what the file holds afterwards. -/
def Overwrites (call : Proc (Store α β) ε ω) : Prop :=
  FromMemory call ∧ ∀ a b : Store α β, a.memory = b.memory →
    ∀ answer, (call a).1 = .ok answer → (call a).2.file = (call b).2.file

/-- A call that answers with what it has written. -/
def written (call : Proc (Store α β) ε ω) : Proc (Store α β) ε (ω × Option β) := do
  let answer ← call
  let s ← get
  pure (answer, s.file)

theorem fromMemory_read (answer : α → ω) :
    FromMemory (ε := ε) (β := β) (do let s ← get; pure (answer s.memory)) := by
  intro a b same
  show Except.ok (answer a.memory) = Except.ok (answer b.memory) ∧ a.memory = b.memory
  rw [same]
  simp

theorem fromMemory_ofExcept (answer : Except ε ω) :
    FromMemory (β := β) (Proc.ofExcept answer : Proc (Store α β) ε ω) := fun _ _ same => ⟨rfl, same⟩

theorem FromMemory.bind {ρ : Type} {call : Proc (Store α β) ε ω} {next : ω → Proc (Store α β) ε ρ}
    (told : FromMemory call) (later : ∀ answer, FromMemory (next answer)) :
    FromMemory (call >>= next) := by
  intro a b same
  obtain ⟨result, memory⟩ := told a b same
  cases first : call a with
  | mk answer after =>
      cases second : call b with
      | mk other afterwards =>
          rw [first, second] at result memory
          subst result
          cases answer with
          | error error =>
              simp only [bind_apply, first, second]
              exact ⟨trivial, memory⟩
          | ok value =>
              simp only [bind_apply, first, second]
              exact later value after afterwards memory

theorem Overwrites.afterRead {ρ : Type} {call : Proc (Store α β) ε ω}
    {next : ω → Proc (Store α β) ε ρ} (told : FromMemory call)
    (later : ∀ answer, Overwrites (next answer)) : Overwrites (call >>= next) := by
  refine ⟨told.bind fun answer => (later answer).1, ?_⟩
  intro a b same value succeeded
  obtain ⟨result, memory⟩ := told a b same
  cases first : call a with
  | mk answer after =>
      cases second : call b with
      | mk other afterwards =>
          rw [first, second] at result memory
          subst result
          cases answer with
          | error error => simp [bind_apply, first] at succeeded
          | ok found =>
              simp only [bind_apply, first] at succeeded
              simp only [bind_apply, first, second]
              exact (later found).2 after afterwards memory value succeeded

theorem FromMemory.written {call : Proc (Store α β) ε ω} (told : Overwrites call) :
    FromMemory (Store.written call) := by
  intro a b same
  obtain ⟨result, memory⟩ := told.1 a b same
  have file := told.2 a b same
  cases first : call a with
  | mk answer after =>
      cases second : call b with
      | mk other later =>
          rw [first, second] at result memory
          rw [first, second] at file
          subst result
          cases answer with
          | error error =>
              simp only [Store.written, bind_apply, first, second]
              exact ⟨trivial, memory⟩
          | ok value =>
              simp only [Store.written, bind_apply, first, second, get_apply, pure_apply]
              exact ⟨by rw [file value rfl], memory⟩

/-- An answer that is made of the value after the write. -/
theorem Overwrites.thenRead {call : Proc (Store α β) ε ω} {ρ : Type} (told : Overwrites call)
    (answer : ω → α → Except ε ρ) :
    Overwrites (do
      let a ← call
      let s ← get
      Proc.ofExcept (answer a s.memory)) := by
  have sides : ∀ s : Store α β, (do
      let a ← call
      let s ← get
      Proc.ofExcept (answer a s.memory) : Proc (Store α β) ε ρ) s =
      ((call s).1 >>= fun a => answer a (call s).2.memory, (call s).2) := by
    intro s
    rw [bind_apply]
    cases call s with
    | mk result after => cases result <;> rfl
  constructor
  · intro a b same
    obtain ⟨result, memory⟩ := told.1 a b same
    rw [sides, sides, result, memory]
    exact ⟨rfl, rfl⟩
  · intro a b same value succeeded
    rw [sides] at succeeded ⊢
    rw [sides]
    cases found : (call a).1 with
    | error error =>
        rw [found] at succeeded
        cases succeeded
    | ok first => exact told.2 a b same first found

theorem Overwrites.ofExcept {call : Proc (Store α β) ε ω} {ρ : Type} (told : Overwrites call)
    (answer : ω → Except ε ρ) : Overwrites (do let a ← call; Proc.ofExcept (answer a)) :=
  told.thenRead fun a _ => answer a

/-- A save that tells its file by the value alone, where it succeeds. -/
def Replaces (save : α → Proc (Option β) ε Unit) : Prop :=
  ∀ value (a b : Option β), (save value a).1 = (save value b).1 ∧
    ((save value a).1 = .ok () → (save value a).2 = (save value b).2)

theorem overwrites_onFile {save : α → Proc (Option β) ε Unit} (replaces : Replaces save) :
    Overwrites (do
      let s ← get
      onFile (save s.memory)) := by
  constructor
  · intro a b same
    show (save a.memory a.file).1 = (save b.memory b.file).1 ∧ a.memory = b.memory
    rw [same, (replaces b.memory a.file b.file).1]
    simp
  · intro a b same value succeeded
    have saved : (save a.memory a.file).1 = .ok value := succeeded
    show (save a.memory a.file).2 = (save b.memory b.file).2
    rw [same] at saved ⊢
    exact (replaces b.memory a.file b.file).2 saved

theorem overwrites_changeThenSave {save : α → Proc (Option β) ε Unit} (replaces : Replaces save)
    (change : α → α) : Overwrites (changeThenSave save change) := by
  constructor
  · intro a b same
    show (save (change a.memory) a.file).1 = (save (change b.memory) b.file).1 ∧
      change a.memory = change b.memory
    rw [same, (replaces (change b.memory) a.file b.file).1]
    simp
  · intro a b same value succeeded
    have saved : (save (change a.memory) a.file).1 = .ok value := succeeded
    show (save (change a.memory) a.file).2 = (save (change b.memory) b.file).2
    rw [same] at saved ⊢
    exact (replaces (change b.memory) a.file b.file).2 saved

/-- A change that reports what it has found in memory. -/
theorem overwrites_reporting {save : α → Proc (Option β) ε Unit} (replaces : Replaces save)
    (change : α → α) (report : α → ω) :
    Overwrites (do
      let s ← get
      changeThenSave save change
      pure (report s.memory)) := by
  have sides : ∀ s : Store α β, (do
      let s ← get
      changeThenSave save change
      pure (report s.memory) : Proc (Store α β) ε ω) s =
      ((save (change s.memory) s.file).1 >>= fun _ => .ok (report s.memory),
        ⟨change s.memory, (save (change s.memory) s.file).2⟩) := by
    intro s
    rw [bind_apply, get_apply]
    simp only [bind_apply, changeThenSave, modify_apply, get_apply, onFile, zoom]
    cases save (change s.memory) s.file with
    | mk result after => cases result <;> rfl
  constructor
  · intro a b same
    rw [sides, sides, same, (replaces (change b.memory) a.file b.file).1]
    simp
  · intro a b same value succeeded
    rw [sides] at succeeded ⊢
    rw [sides]
    rw [same] at succeeded ⊢
    cases saved : (save (change b.memory) a.file).1 with
    | error error =>
        rw [saved] at succeeded
        cases succeeded
    | ok done => exact (replaces (change b.memory) a.file b.file).2 saved

/-- The answers of a history of calls. -/
def answers : List (Proc (Store α β) ε ω) → Store α β → List (Except ε ω)
  | [], _ => []
  | call :: later, s => (call s).1 :: answers later (call s).2

/-- No history of such calls tells apart two stores with the same value. -/
theorem answers_congr {calls : List (Proc (Store α β) ε ω)} (told : ∀ call ∈ calls, FromMemory call)
    {a b : Store α β} (same : a.memory = b.memory) : answers calls a = answers calls b := by
  induction calls generalizing a b with
  | nil => rfl
  | cons call later ih =>
      have one := told call List.mem_cons_self a b same
      show (call a).1 :: answers later (call a).2 = (call b).1 :: answers later (call b).2
      rw [one.1, ih (fun other inside => told other (List.mem_cons_of_mem _ inside)) one.2]

/-- The histories of a family of calls tell apart exactly the values that a read tells apart. -/
theorem answers_eq_iff {ι : Type} {call : ι → Proc (Store α β) ε ω} (told : ∀ i, FromMemory (call i))
    (read : ι) (reads : ∀ a b : Store α β, (call read a).1 = (call read b).1 → a.memory = b.memory)
    (a b : Store α β) :
    (∀ later : List ι, answers (later.map call) a = answers (later.map call) b) ↔
      a.memory = b.memory := by
  constructor
  · intro alike
    have once : answers [call read] a = answers [call read] b := alike [read]
    exact reads a b (List.cons.inj once).1
  · intro same later
    apply answers_congr _ same
    intro one inside
    obtain ⟨i, _, rfl⟩ := List.mem_map.mp inside
    exact told i

end Store

end Persisted

import AeordbSync.Library.Effect

namespace Effect

variable {σ ε α β γ ι κ : Type}

namespace Proc

theorem bind_bind (x : Proc σ ε α) (f : α → Proc σ ε β) (g : β → Proc σ ε γ) :
    (x >>= f) >>= g = x >>= fun a => f a >>= g := by
  funext s
  simp only [bind_apply]
  rcases x s with ⟨result, next⟩
  cases result <;> rfl

theorem forEach_append (xs ys : List ι) (body : ι → Proc σ ε Unit) :
    forEach (xs ++ ys) body = forEach xs body >>= fun _ => forEach ys body := by
  induction xs with
  | nil => rfl
  | cons x rest ih => rw [List.cons_append, forEach_cons, forEach_cons, ih, bind_bind]

theorem forEach_map (f : κ → ι) (xs : List κ) (body : ι → Proc σ ε Unit) :
    forEach (xs.map f) body = forEach xs fun x => body (f x) := by
  induction xs with
  | nil => rfl
  | cons x rest ih => rw [List.map_cons, forEach_cons, forEach_cons, ih]

/-- Rounds that do nothing may be left out. -/
theorem forEach_filter (keep : ι → Bool) (xs : List ι) {body : ι → Proc σ ε Unit}
    (idle : ∀ x, keep x = false → body x = pure ()) : forEach (xs.filter keep) body = forEach xs body := by
  induction xs with
  | nil => rfl
  | cons x rest ih =>
      rw [forEach_cons, ← ih]
      cases kept : keep x with
      | true => rw [List.filter_cons_of_pos kept, forEach_cons]
      | false =>
          rw [List.filter_cons_of_neg (Bool.eq_false_iff.mp kept), idle x kept]
          rfl

theorem forEach_idle (xs : List ι) {body : ι → Proc σ ε Unit} (idle : ∀ x ∈ xs, body x = pure ()) :
    forEach xs body = (pure () : Proc σ ε Unit) := by
  induction xs with
  | nil => rfl
  | cons x rest ih =>
      rw [forEach_cons, idle x (List.mem_cons_self ..), ih fun y inside => idle y (List.mem_cons_of_mem _ inside)]
      rfl

theorem when_forEach (c : Prop) [Decidable c] (xs : List ι) (body : ι → Proc σ ε Unit) :
    Proc.when c (forEach xs body) = forEach (if c then xs else []) body := by
  unfold Proc.when
  split <;> rfl

end Proc

namespace Triple

variable {P Q : σ → Prop} {E : ε → σ → Prop}

/-- One round of a loop brings about what the rounds after it keep. -/
theorem forEach_around {front back : List ι} {x : ι} {body : ι → Proc σ ε Unit}
    (before : ∀ y ∈ front, Triple P (body y) (fun _ => P) E) (own : Triple P (body x) (fun _ => Q) E)
    (after : ∀ y ∈ back, Triple Q (body y) (fun _ => Q) E) :
    Triple P (Proc.forEach (front ++ x :: back) body) (fun _ => Q) E := by
  rw [Proc.forEach_append, Proc.forEach_cons]
  exact seq (forEach_keep P front before) (seq own (forEach_keep Q back after))

end Triple

end Effect

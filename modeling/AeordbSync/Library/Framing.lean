import Mathlib.Data.List.Basic
import Mathlib.Tactic

/-- A way to cut the first complete frame off a stream. What arrives later does not move the cut. -/
structure Cutter (α β : Type) where
  cut : List α → Option (β × List α)
  frame : β → List α
  filled : ∀ piece, frame piece ≠ []
  whole : ∀ {stream piece rest}, cut stream = some (piece, rest) → stream = frame piece ++ rest
  stable : ∀ {stream piece rest}, cut stream = some (piece, rest) →
    ∀ more, cut (stream ++ more) = some (piece, rest ++ more)

namespace Cutter

variable {α β : Type} (cutter : Cutter α β) {stream rest : List α} {piece : β}

theorem shorter (found : cutter.cut stream = some (piece, rest)) : rest.length < stream.length := by
  rw [cutter.whole found, List.length_append]
  have positive := List.length_pos_iff.mpr (cutter.filled piece)
  omega

/-- The complete frames of a stream, and what is left of it. -/
def drain (stream : List α) : List β × List α :=
  match _ : cutter.cut stream with
  | none => ([], stream)
  | some (piece, rest) => (piece :: (drain rest).1, (drain rest).2)
termination_by stream.length
decreasing_by all_goals exact cutter.shorter ‹_›

theorem drain_none (none : cutter.cut stream = none) : cutter.drain stream = ([], stream) := by
  rw [drain]
  split
  · rfl
  next found => rw [none] at found; cases found

theorem drain_some (found : cutter.cut stream = some (piece, rest)) :
    cutter.drain stream = (piece :: (cutter.drain rest).1, (cutter.drain rest).2) := by
  rw [drain]
  split
  next none => rw [none] at found; cases found
  next other => rw [found] at other; cases other; rfl

/-- Draining goes on where it stopped. -/
theorem drain_append (stream more : List α) :
    cutter.drain (stream ++ more) =
      ((cutter.drain stream).1 ++ (cutter.drain ((cutter.drain stream).2 ++ more)).1,
        (cutter.drain ((cutter.drain stream).2 ++ more)).2) := by
  induction length : stream.length using Nat.strong_induction_on generalizing stream with
  | _ n ih =>
      cases found : cutter.cut stream with
      | none =>
          rw [cutter.drain_none found]
          rfl
      | some pair =>
          obtain ⟨piece, rest⟩ := pair
          have less := cutter.shorter found
          rw [cutter.drain_some found, cutter.drain_some (cutter.stable found more), ih _ (length ▸ less) rest rfl]
          rfl

/-- A stream consists of its frames and of what is left. -/
theorem drain_whole (stream : List α) :
    stream = (cutter.drain stream).1.flatMap cutter.frame ++ (cutter.drain stream).2 := by
  induction length : stream.length using Nat.strong_induction_on generalizing stream with
  | _ n ih =>
      cases found : cutter.cut stream with
      | none =>
          rw [cutter.drain_none found]
          rfl
      | some pair =>
          obtain ⟨piece, rest⟩ := pair
          have less := cutter.shorter found
          rw [cutter.drain_some found, List.flatMap_cons, List.append_assoc, ← ih _ (length ▸ less) rest rfl]
          exact cutter.whole found

/-- What is left holds no complete frame. -/
theorem drain_left (stream : List α) : cutter.cut (cutter.drain stream).2 = none := by
  induction length : stream.length using Nat.strong_induction_on generalizing stream with
  | _ n ih =>
      cases found : cutter.cut stream with
      | none =>
          rw [cutter.drain_none found]
          exact found
      | some pair =>
          obtain ⟨piece, rest⟩ := pair
          have less := cutter.shorter found
          rw [cutter.drain_some found]
          exact ih _ (length ▸ less) rest rfl

end Cutter

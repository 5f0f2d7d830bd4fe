import Mathlib

namespace Characters

abbrev Text := List Char

abbrev Bytes := List UInt8

instance lawfulText : LawfulBEq Text := inferInstance

def trimEndMatches (c : Char) (t : Text) : Text := t.rdropWhile (· == c)

def trimStartMatches (c : Char) (t : Text) : Text := t.dropWhile (· == c)

/-- These are the code points with the Unicode property `White_Space`. -/
def isWhitespace (c : Char) : Bool :=
  let n := c.toNat
  (9 ≤ n && n ≤ 13) || n == 0x20 || n == 0x85 || n == 0xA0 || n == 0x1680 ||
    (0x2000 ≤ n && n ≤ 0x200A) || n == 0x2028 || n == 0x2029 || n == 0x202F ||
    n == 0x205F || n == 0x3000

def trim (t : Text) : Text := (t.dropWhile isWhitespace).rdropWhile isWhitespace

def joinWith (c : Char) (parts : List Text) : Text := [c].intercalate parts

def contains (t needle : Text) : Bool := decide (needle <:+: t)

def toAsciiLowercase (t : Text) : Text := t.map Char.toLower

def utf8 (t : Text) : Bytes := t.flatMap String.utf8EncodeChar

theorem utf8_injective : Function.Injective utf8 := by
  intro left right equal
  refine String.ofList_injective (String.toByteArray_inj.mp ?_)
  rw [String.toByteArray_ofList, String.toByteArray_ofList]
  exact congrArg List.toByteArray equal

/-- The decimal digits of a number. -/
def decimal (n : Nat) : Text := Nat.toDigits 10 n

/-- An unsigned number of so many bits, with an optional plus sign. -/
def parseUnsigned (bits : Nat) (t : Text) : Option Nat :=
  let digits := match t with
    | '+' :: rest => rest
    | _ => t
  if digits ≠ [] ∧ digits.all Char.isDigit = true then
    let value := digits.foldl (fun value digit => 10 * value + (digit.toNat - '0'.toNat)) 0
    if value < 2 ^ bits then some value else none
  else none

def splitOnce (c : Char) (t : Text) : Option (Text × Text) :=
  if c ∈ t then some (t.takeWhile (· != c), (t.dropWhile (· != c)).drop 1) else none

theorem trimEndMatches_idem (c : Char) (t : Text) :
    trimEndMatches c (trimEndMatches c t) = trimEndMatches c t :=
  List.rdropWhile_idempotent _ _

/-- The trimmed text ends with another character, or it is empty. -/
theorem trimEndMatches_last (c : Char) (t : Text) (h : trimEndMatches c t ≠ []) :
    (trimEndMatches c t).getLast h ≠ c := by
  intro equal
  have last := List.rdropWhile_last_not (· == c) t h
  exact last (beq_iff_eq.mpr equal)

theorem trimStartMatches_of_head (c d : Char) (t : Text) (different : d ≠ c) :
    trimStartMatches c (d :: t) = d :: t := by
  simp [trimStartMatches, different]

@[simp] theorem trimStartMatches_nil (c : Char) : trimStartMatches c [] = [] := rfl

@[simp] theorem trimStartMatches_cons_self (c : Char) (t : Text) :
    trimStartMatches c (c :: t) = trimStartMatches c t := by
  simp [trimStartMatches]

theorem joinWith_cons (c : Char) (first second : Text) (rest : List Text) :
    joinWith c (first :: second :: rest) = first ++ c :: joinWith c (second :: rest) := by
  simp [joinWith, List.intercalate]

@[simp] theorem joinWith_singleton (c : Char) (t : Text) : joinWith c [t] = t := by
  simp [joinWith, List.intercalate]

theorem joinWith_append (c : Char) {front back : List Text} (some : front ≠ []) (more : back ≠ []) :
    joinWith c (front ++ back) = joinWith c front ++ c :: joinWith c back := by
  obtain ⟨next, tail, rfl⟩ := List.exists_cons_of_ne_nil more
  induction front with
  | nil => exact absurd rfl some
  | cons first rest ih =>
      cases rest with
      | nil => rw [List.singleton_append, joinWith_cons, joinWith_singleton]
      | cons second others =>
          rw [List.cons_append, List.cons_append, joinWith_cons, ← List.cons_append, ih (by simp),
            joinWith_cons, List.append_assoc, List.cons_append]

@[simp] theorem joinWith_nil (c : Char) : joinWith c [] = [] := rfl

/-- Splitting recovers the parts that do not contain the separator. -/
theorem splitOn_joinWith (c : Char) (parts : List Text) (free : ∀ t ∈ parts, c ∉ t)
    (some : parts ≠ []) : (joinWith c parts).splitOn c = parts :=
  List.splitOn_intercalate c free some

/-- No part of a list that is cut at a separator contains it. -/
theorem not_mem_of_mem_splitOn {α : Type} [DecidableEq α] {c : α} {whole segment : List α}
    (inside : segment ∈ whole.splitOn c) : c ∉ segment := by
  induction whole generalizing segment with
  | nil =>
      rw [List.splitOn_nil, List.mem_singleton] at inside
      subst inside
      exact List.not_mem_nil
  | cons first rest ih =>
      rw [List.splitOn_cons_eq_if_modifyHead] at inside
      split at inside
      next separator =>
        rcases List.mem_cons.mp inside with rfl | later
        · exact List.not_mem_nil
        · exact ih later
      next other =>
        obtain ⟨head, tail, parts⟩ := List.exists_cons_of_ne_nil (List.splitOn_ne_nil c rest)
        rw [parts, List.modifyHead_cons] at inside
        rw [parts] at ih
        rcases List.mem_cons.mp inside with rfl | later
        · intro present
          rcases List.mem_cons.mp present with rfl | deeper
          · exact other (beq_self_eq_true c)
          · exact ih (List.mem_cons_self ..) deeper
        · exact ih (List.mem_cons_of_mem _ later)

/-- Trimming removes the separator before the first part and nothing of that part. -/
theorem trimStartMatches_joinWith (c d : Char) (t : Text) (rest : List Text) (different : d ≠ c) :
    trimStartMatches c (c :: joinWith c ((d :: t) :: rest)) = joinWith c ((d :: t) :: rest) := by
  cases rest with
  | nil => simp [trimStartMatches_of_head c d _ different]
  | cons second more =>
      rw [trimStartMatches_cons_self, joinWith_cons]
      exact trimStartMatches_of_head c d _ different

end Characters

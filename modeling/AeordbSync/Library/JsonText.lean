import AeordbSync.Library.Json

open Characters

namespace Json

/-- A hexadecimal digit in lower case. -/
def nibble (n : Nat) : Char := Char.ofNat (if n < 10 then 48 + n else 87 + n)

/-- Quotes, backslashes and control characters are escaped, and every other character is written as it is. -/
def escapeChar (c : Char) : Text :=
  if c = '"' then ['\\', '"']
  else if c = '\\' then ['\\', '\\']
  else if c.toNat = 8 then ['\\', 'b']
  else if c.toNat = 9 then ['\\', 't']
  else if c.toNat = 10 then ['\\', 'n']
  else if c.toNat = 12 then ['\\', 'f']
  else if c.toNat = 13 then ['\\', 'r']
  else if c.toNat < 32 then ['\\', 'u', '0', '0', nibble (c.toNat / 16), nibble (c.toNat % 16)]
  else [c]

def quoted (t : Text) : Text := '"' :: (t.flatMap escapeChar ++ ['"'])

def numberText (n : Int) : Text := if n < 0 then '-' :: decimal n.natAbs else decimal n.natAbs

/-- The elements of a list between two brackets. -/
def bracketed (first last : Char) (parts : List Text) : Text := first :: (joinWith ',' parts ++ [last])

mutual

/-- The compact text of a value. -/
def render : Json → Text
  | .null => ['n', 'u', 'l', 'l']
  | .bool true => ['t', 'r', 'u', 'e']
  | .bool false => ['f', 'a', 'l', 's', 'e']
  | .number n => numberText n
  | .string t => quoted t
  | .array items => bracketed '[' ']' (renderItems items)
  | .object fields => bracketed '{' '}' (renderFields fields)

def renderItems : List Json → List Text
  | [] => []
  | item :: rest => render item :: renderItems rest

def renderFields : Fields → List Text
  | [] => []
  | ⟨key, value⟩ :: rest => (quoted key ++ ':' :: render value) :: renderFields rest

end

theorem renderItems_map {α : Type} (f : α → Json) (items : List α) :
    renderItems (items.map f) = items.map fun item => render (f item) := by
  induction items with
  | nil => rfl
  | cons item rest ih => rw [List.map_cons, renderItems, ih, List.map_cons]

/-- The number of bytes of a text. -/
def byteLength (t : Text) : Nat := (utf8 t).length

@[simp] theorem byteLength_nil : byteLength [] = 0 := rfl

@[simp] theorem byteLength_cons (c : Char) (t : Text) : byteLength (c :: t) = c.utf8Size + byteLength t := by
  simp [byteLength, utf8, String.length_utf8EncodeChar]

@[simp] theorem byteLength_append (front back : Text) :
    byteLength (front ++ back) = byteLength front + byteLength back := by
  simp [byteLength, utf8]

theorem byteLength_flatMap {α : Type} (f : α → Text) (items : List α) :
    byteLength (items.flatMap f) = (items.map fun item => byteLength (f item)).sum := by
  induction items with
  | nil => rfl
  | cons item rest ih => rw [List.flatMap_cons, byteLength_append, ih, List.map_cons, List.sum_cons]

theorem byteLength_joinWith (parts : List Text) :
    byteLength (joinWith ',' parts) = (parts.map byteLength).sum + (parts.length - 1) := by
  have comma : (',' : Char).utf8Size = 1 := by decide
  induction parts with
  | nil => rfl
  | cons first rest ih =>
      cases rest with
      | nil => simp
      | cons second more =>
          rw [joinWith_cons, byteLength_append, byteLength_cons, ih, comma]
          simp only [List.map_cons, List.sum_cons, List.length_cons]
          omega

/-- Text of characters of one byte each is as long as it is. -/
theorem byteLength_ascii {t : Text} (ascii : ∀ c ∈ t, c.utf8Size = 1) : byteLength t = t.length := by
  induction t with
  | nil => rfl
  | cons c rest ih =>
      rw [byteLength_cons, ascii c (List.mem_cons_self ..), ih fun d inside => ascii d (List.mem_cons_of_mem _ inside),
        List.length_cons, Nat.add_comm]

theorem byteLength_bracketed (parts : List Text) (first last : Char) (one : first.utf8Size = 1)
    (one' : last.utf8Size = 1) :
    byteLength (bracketed first last parts) = 2 + (parts.map byteLength).sum + (parts.length - 1) := by
  rw [bracketed, byteLength_cons, byteLength_append, byteLength_joinWith, one, byteLength_cons, one', byteLength_nil]
  omega

end Json

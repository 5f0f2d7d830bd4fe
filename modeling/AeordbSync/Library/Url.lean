import Mathlib.Data.List.Flatten
import AeordbSync.Library.Characters

namespace Url
open Characters

def isC0OrSpace (c : Char) : Bool := decide (c.toNat ≤ 32)

def isTabOrNewline (c : Char) : Bool := c == '\t' || c == '\n' || c == '\r'

/-- In the path of a special URL a backslash separates like a slash. -/
def isSeparator (c : Char) : Bool := c == '/' || c == '\\'

def endsPath (c : Char) : Bool := c == '?' || c == '#'

/-- The path percent-encode set, by code points. -/
def inPathSet (c : Char) : Bool :=
  decide (c.toNat ≤ 32) || decide (126 < c.toNat) || [34, 35, 60, 62, 63, 94, 96, 123, 125].contains c.toNat

def hexDigit (n : Nat) : Char := Char.ofNat (if n < 10 then 48 + n else 55 + n)

def percentEncodeByte (byte : UInt8) : Text := ['%', hexDigit (byte.toNat / 16), hexDigit (byte.toNat % 16)]

/-- The characters of a set are written as the escapes of their bytes. -/
def escapeChar (inSet : Char → Bool) (c : Char) : Text :=
  if inSet c then (String.utf8EncodeChar c).flatMap percentEncodeByte else [c]

def escape (inSet : Char → Bool) (t : Text) : Text := t.flatMap (escapeChar inSet)

def encodeChar (c : Char) : Text :=
  if inPathSet c then (String.utf8EncodeChar c).flatMap percentEncodeByte else [c]

def encode (t : Text) : Text := t.flatMap encodeChar

def hexValue (c : Char) : Option Nat :=
  if 48 ≤ c.toNat ∧ c.toNat ≤ 57 then some (c.toNat - 48)
  else if 65 ≤ c.toNat ∧ c.toNat ≤ 70 then some (c.toNat - 55)
  else if 97 ≤ c.toNat ∧ c.toNat ≤ 102 then some (c.toNat - 87)
  else none

/-- A percent sign that two hexadecimal digits do not follow stands for itself. -/
def percentDecode : Text → Bytes
  | '%' :: a :: b :: rest => match hexValue a, hexValue b with
      | some high, some low => UInt8.ofNat (16 * high + low) :: percentDecode rest
      | _, _ => 37 :: percentDecode (a :: b :: rest)
  | c :: rest => String.utf8EncodeChar c ++ percentDecode rest
  | [] => []

def isSingleDot (segment : Text) : Bool :=
  ([".", "%2e"].map String.toList).contains (toAsciiLowercase segment)

def isDoubleDot (segment : Text) : Bool :=
  (["..", ".%2e", "%2e.", "%2e%2e"].map String.toList).contains (toAsciiLowercase segment)

/-- A dot segment leaves an empty segment behind when it is the last. -/
def closeSegment (path : List Text) (segment : Text) (last : Bool) : List Text :=
  if isDoubleDot segment then path.dropLast ++ (if last then [[]] else [])
  else if isSingleDot segment then path ++ (if last then [[]] else [])
  else path ++ [segment]

def pathState (path : List Text) (buffer : Text) : Text → List Text
  | [] => closeSegment path buffer true
  | c :: rest =>
      if endsPath c then closeSegment path buffer true
      else if isSeparator c then pathState (closeSegment path buffer false) [] rest
      else pathState path (buffer ++ encodeChar c) rest

def isSpecialScheme (scheme : Text) : Bool :=
  (["http", "https"].map String.toList).contains (toAsciiLowercase scheme)

def endsAuthority (c : Char) : Bool := isSeparator c || endsPath c

/-- The input without the characters that the parser removes before it begins. -/
def cleaned (input : Text) : Text :=
  ((input.dropWhile isC0OrSpace).rdropWhile isC0OrSpace).filter fun c => !isTabOrNewline c

/-- The path of an absolute URL of a special scheme that names a host. -/
def path (input : Text) : Option (List Text) :=
  let scheme := (cleaned input).takeWhile (· ≠ ':')
  let authority := ((cleaned input).drop (scheme.length + 1)).dropWhile isSeparator
  if isSpecialScheme scheme = true ∧ authority.takeWhile (!endsAuthority ·) ≠ [] then
    match authority.dropWhile (!endsAuthority ·) with
    | c :: rest => some (if isSeparator c then pathState [] [] rest else pathState [] [] (c :: rest))
    | [] => some (pathState [] [] [])
  else none

/-- What a server reads from a path: every segment after a slash, decoded once. -/
def decodedPath (path : List Text) : Bytes := path.flatMap fun segment => 47 :: percentDecode segment

theorem percentDecode_cons {c : Char} (different : c ≠ '%') (rest : Text) :
    percentDecode (c :: rest) = String.utf8EncodeChar c ++ percentDecode rest := by
  rw [percentDecode]
  rintro a b later rfl
  exact absurd rfl different

/-- The text begins with two hexadecimal digits. -/
def StartsHex (t : Text) : Prop :=
  ∃ a b rest high low, t = a :: b :: rest ∧ hexValue a = some high ∧ hexValue b = some low

theorem percentDecode_percent {t : Text} (none : ¬ StartsHex t) :
    percentDecode ('%' :: t) = 37 :: percentDecode t := by
  have literal : String.utf8EncodeChar '%' = [37] := by decide
  match t with
  | [] => rw [percentDecode, literal] <;> simp
  | [a] => rw [percentDecode, literal] <;> simp
  | a :: b :: rest =>
      rw [percentDecode]
      split
      next high low first second => exact absurd ⟨a, b, rest, high, low, rfl, first, second⟩ none
      · rfl

theorem percentDecode_hex {a b : Char} {high low : Nat} (first : hexValue a = some high)
    (second : hexValue b = some low) (rest : Text) :
    percentDecode ('%' :: a :: b :: rest) = UInt8.ofNat (16 * high + low) :: percentDecode rest := by
  rw [percentDecode, first, second]

/-- Every text is empty, begins with an escape, with a bare percent sign, or with another character. -/
inductive Cut : Text → Prop
  | nil : Cut []
  | escape {a b : Char} {high low : Nat} {rest : Text} (first : hexValue a = some high)
      (second : hexValue b = some low) (later : Cut rest) : Cut ('%' :: a :: b :: rest)
  | percent {rest : Text} (bare : ¬ StartsHex rest) (later : Cut rest) : Cut ('%' :: rest)
  | other {c : Char} {rest : Text} (different : c ≠ '%') (later : Cut rest) : Cut (c :: rest)

theorem cut (t : Text) : Cut t := by
  by_cases empty : t = []
  · exact empty ▸ .nil
  obtain ⟨c, rest, rfl⟩ := List.exists_cons_of_ne_nil empty
  by_cases percent : c = '%'
  · subst percent
    by_cases hex : StartsHex rest
    · obtain ⟨a, b, later, high, low, rfl, first, second⟩ := hex
      exact .escape first second (cut later)
    · exact .percent hex (cut rest)
  · exact .other percent (cut rest)
termination_by t.length

theorem hexValue_hexDigit : ∀ n < 16, hexValue (hexDigit n) = some n := by decide

theorem hexValue_range {c : Char} {n : Nat} (hex : hexValue c = some n) :
    48 ≤ c.toNat ∧ c.toNat ≤ 57 ∨ 65 ≤ c.toNat ∧ c.toNat ≤ 70 ∨ 97 ≤ c.toNat ∧ c.toNat ≤ 102 := by
  unfold hexValue at hex
  split at hex
  · omega
  · split at hex
    · omega
    · split at hex
      · omega
      · cases hex

/-- A hexadecimal digit is neither encoded nor a separator. -/
theorem of_hexValue {c : Char} {n : Nat} (hex : hexValue c = some n) :
    inPathSet c = false ∧ c ≠ '%' ∧ c ≠ '/' := by
  have range := hexValue_range hex
  refine ⟨?_, ?_, ?_⟩
  · simp only [inPathSet, List.contains_cons, List.contains_nil, Bool.or_eq_false_iff, decide_eq_false_iff_not,
      beq_eq_false_iff_ne, ne_eq, Bool.or_false]
    omega
  · rintro rfl
    revert range
    decide
  · rintro rfl
    revert range
    decide

theorem encode_append (first second : Text) : encode (first ++ second) = encode first ++ encode second :=
  List.flatMap_append

theorem percentDecode_encodeByte (byte : UInt8) (rest : Text) :
    percentDecode (percentEncodeByte byte ++ rest) = byte :: percentDecode rest := by
  have small : byte.toNat < 256 := byte.toNat_lt
  have high := hexValue_hexDigit (byte.toNat / 16) (by omega)
  have low := hexValue_hexDigit (byte.toNat % 16) (by omega)
  show percentDecode ('%' :: hexDigit _ :: hexDigit _ :: rest) = _
  rw [percentDecode_hex high low, Nat.div_add_mod, UInt8.ofNat_toNat]

theorem percentDecode_encodeBytes (bytes : Bytes) (rest : Text) :
    percentDecode (bytes.flatMap percentEncodeByte ++ rest) = bytes ++ percentDecode rest := by
  induction bytes with
  | nil => rfl
  | cons byte later ih =>
      rw [List.flatMap_cons, List.append_assoc, percentDecode_encodeByte, ih, List.cons_append]

/-- Every character is spelled so that it decodes to its bytes, and no spelling makes an escape. -/
structure Spells (spell : Char → Text) (bytes : Char → Bytes) : Prop where
  percent : spell '%' = ['%']
  hex : ∀ c n, hexValue c = some n → spell c = [c]
  other : ∀ c rest, c ≠ '%' → percentDecode (spell c ++ rest) = bytes c ++ percentDecode rest
  head : ∀ c, ∃ d rest, spell c = d :: rest ∧ ∀ n, hexValue d = some n → d = c

namespace Spells

variable {spell other : Char → Text} {bytes : Char → Bytes}

/-- A hexadecimal digit of the spelled text stood there before. -/
theorem digit (spells : Spells spell bytes) {c : Char} {n : Nat} {t rest : Text} (hex : hexValue c = some n)
    (equal : t.flatMap spell = c :: rest) : ∃ later, t = c :: later ∧ later.flatMap spell = rest := by
  cases t with
  | nil => cases equal
  | cons first later =>
      obtain ⟨d, more, written, same⟩ := spells.head first
      rw [List.flatMap_cons, written, List.cons_append, List.cons.injEq] at equal
      obtain ⟨rfl, next⟩ := equal
      obtain rfl := same n hex
      have alone := spells.hex d n hex
      rw [written, List.cons.injEq] at alone
      rw [alone.2, List.nil_append] at next
      exact ⟨later, rfl, next⟩

/-- A spelling makes no escape out of what follows a percent sign. -/
theorem startsHex (spells : Spells spell bytes) {t : Text} (hex : StartsHex (t.flatMap spell)) : StartsHex t := by
  obtain ⟨a, b, rest, high, low, equal, first, second⟩ := hex
  obtain ⟨later, rfl, next⟩ := spells.digit first equal
  obtain ⟨last, rfl, -⟩ := spells.digit second next
  exact ⟨a, b, last, high, low, rfl, first, second⟩

theorem decode (first : Spells spell bytes) (second : Spells other bytes) (t : Text) :
    percentDecode (t.flatMap spell) = percentDecode (t.flatMap other) := by
  induction cut t with
  | nil => rfl
  | @escape a b high low rest digit next later ih =>
      simp only [List.flatMap_cons, first.percent, second.percent, first.hex a high digit, second.hex a high digit,
        first.hex b low next, second.hex b low next, List.singleton_append]
      rw [percentDecode_hex digit next, percentDecode_hex digit next, ih]
  | @percent rest bare later ih =>
      rw [List.flatMap_cons, List.flatMap_cons, first.percent, second.percent, List.singleton_append,
        List.singleton_append, percentDecode_percent fun hex => bare (first.startsHex hex),
        percentDecode_percent fun hex => bare (second.startsHex hex), ih]
  | @other c rest different later ih =>
      rw [List.flatMap_cons, List.flatMap_cons, first.other c _ different, second.other c _ different, ih]

theorem plain : Spells (fun c => [c]) String.utf8EncodeChar :=
  ⟨rfl, fun _ _ _ => rfl, fun _ rest different => percentDecode_cons different rest, fun c => ⟨c, [], rfl, fun _ _ => rfl⟩⟩

end Spells

theorem escapeChar_head (inSet : Char → Bool) (c : Char) :
    ∃ d rest, escapeChar inSet c = d :: rest ∧ ∀ n, hexValue d = some n → d = c := by
  unfold escapeChar
  split
  · have filled : String.utf8EncodeChar c ≠ [] := String.utf8EncodeChar_ne_nil
    obtain ⟨byte, bytes, equal⟩ := List.exists_cons_of_ne_nil filled
    rw [equal]
    exact ⟨'%', _, rfl, fun n hex => absurd rfl (of_hexValue hex).2.1⟩
  · exact ⟨c, [], rfl, fun _ _ => rfl⟩

theorem spells_escape {inSet : Char → Bool} (percent : inSet '%' = false)
    (hexes : ∀ c n, hexValue c = some n → inSet c = false) : Spells (escapeChar inSet) String.utf8EncodeChar := by
  refine ⟨?_, fun c n hex => ?_, fun c rest different => ?_, escapeChar_head inSet⟩
  · rw [escapeChar, percent]
    rfl
  · rw [escapeChar, hexes c n hex]
    rfl
  · unfold escapeChar
    split
    · exact percentDecode_encodeBytes _ rest
    · exact percentDecode_cons different rest

theorem percentDecode_encode (t : Text) : percentDecode (encode t) = percentDecode t := by
  have same := (spells_escape (by decide) fun _ _ hex => (of_hexValue hex).1).decode Spells.plain t
  rw [List.flatMap_singleton'] at same
  exact same

theorem startsHex_of_slash {t rest : Text} (hex : StartsHex (t ++ '/' :: rest)) : StartsHex t := by
  obtain ⟨a, b, later, high, low, equal, first, second⟩ := hex
  match t with
  | [] => exact absurd (List.cons.inj equal).1.symm (of_hexValue first).2.2
  | [c] => exact absurd (List.cons.inj (List.cons.inj equal).2).1.symm (of_hexValue second).2.2
  | c :: d :: others =>
      obtain ⟨rfl, tail⟩ := List.cons.inj equal
      obtain ⟨rfl, -⟩ := List.cons.inj tail
      exact ⟨c, d, others, high, low, rfl, first, second⟩

/-- No escape reaches over a slash. -/
theorem percentDecode_slash (t rest : Text) :
    percentDecode (t ++ '/' :: rest) = percentDecode t ++ 47 :: percentDecode rest := by
  induction cut t with
  | nil => exact percentDecode_cons (by decide) rest
  | escape first second later ih =>
      simp only [List.cons_append]
      rw [percentDecode_hex first second, percentDecode_hex first second, ih, List.cons_append]
  | percent bare later ih =>
      rw [List.cons_append, percentDecode_percent fun hex => bare (startsHex_of_slash hex),
        percentDecode_percent bare, ih, List.cons_append]
  | other different later ih =>
      rw [List.cons_append, percentDecode_cons different, percentDecode_cons different, ih, List.append_assoc]

/-- The text has a percent sign with two hexadecimal digits. -/
def Escaped (t : Text) : Prop := ∃ front rest, t = front ++ '%' :: rest ∧ StartsHex rest

theorem escaped_cons {c : Char} {t : Text} : Escaped (c :: t) ↔ (c = '%' ∧ StartsHex t) ∨ Escaped t := by
  constructor
  · rintro ⟨front, rest, equal, hex⟩
    cases front with
    | nil =>
        obtain ⟨rfl, rfl⟩ := List.cons.inj equal
        exact Or.inl ⟨rfl, hex⟩
    | cons first others => exact Or.inr ⟨others, rest, (List.cons.inj equal).2, hex⟩
  · rintro (⟨rfl, hex⟩ | ⟨front, rest, rfl, hex⟩)
    · exact ⟨[], t, rfl, hex⟩
    · exact ⟨c :: front, rest, rfl, hex⟩

theorem Escaped.mono {t whole : Text} (inside : t <:+: whole) (escaped : Escaped t) : Escaped whole := by
  obtain ⟨before, after, rfl⟩ := inside
  obtain ⟨front, rest, rfl, a, b, later, high, low, rfl, first, second⟩ := escaped
  exact ⟨before ++ front, a :: b :: later ++ after, by simp, a, b, later ++ after, high, low, rfl, first, second⟩

theorem utf8_cons (c : Char) (t : Text) : utf8 (c :: t) = String.utf8EncodeChar c ++ utf8 t := rfl

theorem utf8_append (first second : Text) : utf8 (first ++ second) = utf8 first ++ utf8 second :=
  List.flatMap_append

/-- Decoding keeps a text without escapes, and it shortens every other. -/
theorem percentDecode_spec (t : Text) : (¬ Escaped t ∧ percentDecode t = utf8 t) ∨
    (Escaped t ∧ (percentDecode t).length < (utf8 t).length) := by
  induction cut t with
  | nil =>
      refine Or.inl ⟨?_, rfl⟩
      rintro ⟨front, rest, equal, -⟩
      cases front <;> cases equal
  | @escape a b high low rest first second later ih =>
      refine Or.inr ⟨escaped_cons.mpr (Or.inl ⟨rfl, a, b, rest, high, low, rfl, first, second⟩), ?_⟩
      have bound : (percentDecode rest).length ≤ (utf8 rest).length := by
        rcases ih with ⟨-, equal⟩ | ⟨-, less⟩
        · rw [equal]
        · exact less.le
      rw [percentDecode_hex first second]
      simp only [utf8_cons, List.length_append, List.length_cons, String.length_utf8EncodeChar]
      have := Char.utf8Size_pos a
      have := Char.utf8Size_pos b
      have := Char.utf8Size_pos '%'
      omega
  | @percent rest bare later ih =>
      rw [percentDecode_percent bare, escaped_cons, utf8_cons, show String.utf8EncodeChar '%' = [37] by decide]
      rcases ih with ⟨plain, equal⟩ | ⟨escaped, less⟩
      · refine Or.inl ⟨?_, by rw [equal]; rfl⟩
        rintro (⟨-, hex⟩ | escaped)
        · exact bare hex
        · exact plain escaped
      · exact Or.inr ⟨Or.inr escaped, by simpa using less⟩
  | @other c rest different later ih =>
      rw [percentDecode_cons different, escaped_cons, utf8_cons]
      rcases ih with ⟨plain, equal⟩ | ⟨escaped, less⟩
      · refine Or.inl ⟨?_, by rw [equal]⟩
        rintro (⟨same, -⟩ | escaped)
        · exact different same
        · exact plain escaped
      · exact Or.inr ⟨Or.inr escaped, by simpa using less⟩

theorem percentDecode_length (t : Text) : (percentDecode t).length ≤ (utf8 t).length := by
  rcases percentDecode_spec t with ⟨-, equal⟩ | ⟨-, less⟩
  · rw [equal]
  · exact less.le

/-- The part of the text that belongs to the path, and the same with slashes for all separators. -/
def untilQuery (t : Text) : Text := t.takeWhile (!endsPath ·)

def slashed (t : Text) : Text := t.map fun c => if isSeparator c then '/' else c

theorem decodedPath_append (first second : List Text) :
    decodedPath (first ++ second) = decodedPath first ++ decodedPath second :=
  List.flatMap_append

theorem decodedPath_dropLast (path : List Text) : (decodedPath path.dropLast).length ≤ (decodedPath path).length := by
  refine List.Sublist.length_le ?_
  exact (List.dropLast_sublist path).flatMap _

/-- A dot segment is not longer than what it stands for. -/
theorem dot_length {buffer : Text} (dot : isSingleDot (encode buffer) = true ∨ isDoubleDot (encode buffer) = true) :
    0 < (utf8 buffer).length := by
  have filled : buffer ≠ [] := by
    rintro rfl
    revert dot
    decide
  obtain ⟨c, rest, rfl⟩ := List.exists_cons_of_ne_nil filled
  have positive := Char.utf8Size_pos c
  rw [utf8_cons, List.length_append, String.length_utf8EncodeChar]
  omega

/-- What a segment adds to the path, or a dot segment that makes the path shorter than its text. -/
theorem decodedPath_closeSegment (path : List Text) (buffer : Text) (last : Bool) :
    decodedPath (closeSegment path (encode buffer) last) = decodedPath path ++ 47 :: percentDecode buffer ∨
      (decodedPath (closeSegment path (encode buffer) last)).length + (if last then 0 else 1) <
        (decodedPath path).length + 1 + (utf8 buffer).length := by
  have bound := decodedPath_dropLast path
  have nothing : (decodedPath (if last then [([] : Text)] else [])).length = if last then 1 else 0 := by
    cases last <;> rfl
  unfold closeSegment
  split
  next dot =>
    have positive := dot_length (Or.inr dot)
    refine Or.inr ?_
    rw [decodedPath_append, List.length_append, nothing]
    cases last <;> simp only [if_true, Bool.false_eq_true, if_false] <;> omega
  · split
    next dot =>
      have positive := dot_length (Or.inl dot)
      refine Or.inr ?_
      rw [decodedPath_append, List.length_append, nothing]
      cases last <;> simp only [if_true, Bool.false_eq_true, if_false] <;> omega
    · refine Or.inl ?_
      rw [decodedPath_append]
      simp [decodedPath, percentDecode_encode]

theorem utf8_slash (t : Text) : utf8 ('/' :: t) = 47 :: utf8 t := by
  rw [utf8_cons, show String.utf8EncodeChar '/' = [47] by decide]
  rfl

theorem length_utf8_separator {c : Char} (separator : isSeparator c = true) (t : Text) :
    (utf8 (c :: t)).length = 1 + (utf8 t).length := by
  have either : c = '/' ∨ c = '\\' := by simpa [isSeparator] using separator
  rw [utf8_cons, List.length_append, String.length_utf8EncodeChar]
  rcases either with rfl | rfl <;> rfl

theorem length_slashed (t : Text) : (utf8 (slashed t)).length = (utf8 t).length := by
  induction t with
  | nil => rfl
  | cons c rest ih =>
      by_cases separator : isSeparator c = true
      · rw [show slashed (c :: rest) = '/' :: slashed rest by simp [slashed, separator], utf8_slash,
          length_utf8_separator separator, List.length_cons, ih, Nat.add_comm]
      · rw [show slashed (c :: rest) = c :: slashed rest by simp [slashed, separator], utf8_cons, utf8_cons,
          List.length_append, List.length_append, ih]

theorem slashed_eq_self {t : Text} : slashed t = t ↔ '\\' ∉ t := by
  induction t with
  | nil => simp [slashed]
  | cons c later ih =>
      have step : slashed (c :: later) = (if isSeparator c then '/' else c) :: slashed later := rfl
      rw [step, List.cons.injEq, ih, List.mem_cons, not_or]
      refine and_congr_left fun _ => ?_
      by_cases slash : c = '/'
      · subst slash
        decide
      · by_cases backslash : c = '\\'
        · subst backslash
          decide
        · simp [isSeparator, slash, backslash, Ne.symm backslash]

/-- What the parser makes of a path is the path decoded once, unless a dot segment makes it shorter. -/
theorem decodedPath_pathState (path : List Text) (buffer t : Text) :
    decodedPath (pathState path (encode buffer) t) =
        decodedPath path ++ 47 :: percentDecode (buffer ++ slashed (untilQuery t)) ∨
      (decodedPath (pathState path (encode buffer) t)).length <
        (decodedPath path).length + 1 + (utf8 (buffer ++ untilQuery t)).length := by
  induction t generalizing path buffer with
  | nil => simpa [pathState, untilQuery, slashed] using decodedPath_closeSegment path buffer true
  | cons c rest ih =>
      rw [pathState]
      by_cases ends : endsPath c = true
      · rw [if_pos ends]
        simpa [untilQuery, ends, slashed] using decodedPath_closeSegment path buffer true
      have kept : untilQuery (c :: rest) = c :: untilQuery rest := by simp [untilQuery, ends]
      rw [if_neg ends, kept]
      by_cases separator : isSeparator c = true
      · rw [if_pos separator]
        have slash : slashed (c :: untilQuery rest) = '/' :: slashed (untilQuery rest) := by
          simp [slashed, separator]
        have length : (utf8 (buffer ++ c :: untilQuery rest)).length =
            (utf8 buffer).length + (1 + (utf8 (untilQuery rest)).length) := by
          rw [utf8_append, List.length_append, length_utf8_separator separator]
        have later := ih (closeSegment path (encode buffer) false) []
        rw [show encode [] = [] from rfl, List.nil_append, List.nil_append] at later
        rw [slash, percentDecode_slash, length]
        rcases decodedPath_closeSegment path buffer false with equal | less
        · rcases later with same | shorter
          · refine Or.inl ?_
            rw [same, equal]
            simp
          · refine Or.inr (lt_of_lt_of_le shorter ?_)
            have bound := percentDecode_length buffer
            rw [equal]
            simp only [List.length_append, List.length_cons]
            omega
        · refine Or.inr ?_
          rcases later with same | shorter
          · have bound := percentDecode_length (slashed (untilQuery rest))
            rw [length_slashed] at bound
            rw [same]
            simp only [List.length_append, List.length_cons, Bool.false_eq_true, if_false] at less ⊢
            omega
          · simp only [Bool.false_eq_true, if_false] at less
            omega
      · rw [if_neg separator]
        have next := ih path (buffer ++ [c])
        have slash : slashed (c :: untilQuery rest) = c :: slashed (untilQuery rest) := by
          simp [slashed, separator]
        rw [encode_append, show encode [c] = encodeChar c by simp [encode], List.append_assoc, List.append_assoc] at next
        rw [slash]
        exact next

/-- A segment that is read as it is written. -/
def Plain (segment : Text) : Prop :=
  (∀ c ∈ segment, isSeparator c = false ∧ endsPath c = false) ∧
    isSingleDot (encode segment) = false ∧ isDoubleDot (encode segment) = false

theorem pathState_chars {segment : Text} (plain : ∀ c ∈ segment, isSeparator c = false ∧ endsPath c = false)
    (path : List Text) (buffer rest : Text) :
    pathState path buffer (segment ++ rest) = pathState path (buffer ++ encode segment) rest := by
  induction segment generalizing buffer with
  | nil => simp [encode]
  | cons c later ih =>
      obtain ⟨separator, ends⟩ := plain c (List.mem_cons_self ..)
      rw [List.cons_append, pathState, if_neg (by simp [ends]), if_neg (by simp [separator]),
        ih fun d inside => plain d (List.mem_cons_of_mem _ inside)]
      simp [encode]

theorem closeSegment_plain {segment : Text} (plain : Plain segment) (path : List Text) (last : Bool) :
    closeSegment path (encode segment) last = path ++ [encode segment] := by
  unfold closeSegment
  rw [if_neg (by simp [plain.2.2]), if_neg (by simp [plain.2.1])]

/-- Plain segments before a slash are the next ones of the path. -/
theorem pathState_plain {segments : List Text} (plain : ∀ segment ∈ segments, Plain segment) (path : List Text)
    (rest : Text) : pathState path [] (segments.flatMap (· ++ ['/']) ++ rest) =
      pathState (path ++ segments.map encode) [] rest := by
  induction segments generalizing path with
  | nil => simp
  | cons segment later ih =>
      have here := plain segment (List.mem_cons_self ..)
      have slash : isSeparator '/' = true ∧ endsPath '/' = false := by decide
      rw [List.flatMap_cons, List.append_assoc, List.append_assoc, pathState_chars here.1, List.nil_append,
        List.singleton_append, pathState, if_neg (by simp [slash.2]), if_pos slash.1, closeSegment_plain here,
        ih fun other inside => plain other (List.mem_cons_of_mem _ inside)]
      simp

/-- The last plain segment ends with the path. -/
theorem pathState_last {segment : Text} (plain : Plain segment) (path : List Text) {rest : Text}
    (ends : ∀ c ∈ rest.head?, endsPath c = true) : pathState path [] (segment ++ rest) = path ++ [encode segment] := by
  rw [pathState_chars plain.1, List.nil_append]
  cases rest with
  | nil => exact closeSegment_plain plain path true
  | cons c later =>
      rw [pathState, if_pos (ends c rfl)]
      exact closeSegment_plain plain path true

/-- Nothing after the end of the path matters to it. -/
theorem pathState_untilQuery (path : List Text) (buffer t : Text) :
    pathState path buffer (untilQuery t) = pathState path buffer t := by
  induction t generalizing path buffer with
  | nil => rfl
  | cons c rest ih =>
      by_cases ends : endsPath c = true
      · simp [untilQuery, ends, pathState]
      · have kept : untilQuery (c :: rest) = c :: untilQuery rest := by simp [untilQuery, ends]
        rw [kept, pathState, pathState, if_neg ends, if_neg ends, ih, ih]

/-- Plain segments between slashes are the segments that the parser adds. -/
theorem pathState_joinWith {segments : List Text} (plain : ∀ segment ∈ segments, Plain segment)
    (some : segments ≠ []) (path : List Text) :
    pathState path [] (joinWith '/' segments) = path ++ segments.map encode := by
  induction segments generalizing path with
  | nil => exact absurd rfl some
  | cons segment later ih =>
      cases later with
      | nil =>
          have last : pathState path [] (segment ++ []) = path ++ [encode segment] :=
            pathState_last (plain segment (List.mem_cons_self ..)) path (by simp)
          simpa using last
      | cons next others =>
          have alone : ∀ other ∈ [segment], Plain other :=
            fun other inside => plain other (List.mem_cons.mpr (Or.inl (List.mem_singleton.mp inside)))
          have here := pathState_plain alone path (joinWith '/' (next :: others))
          simp only [List.flatMap_singleton, List.append_assoc, List.map_singleton, List.singleton_append] at here
          rw [joinWith_cons, here, ih (fun other inside => plain other (List.mem_cons_of_mem _ inside)) (by simp)]
          simp

theorem toNat_toLower (c : Char) :
    c.toLower.toNat = if 65 ≤ c.toNat ∧ c.toNat ≤ 90 then c.toNat + 32 else c.toNat := by
  have upper : (c.val ≥ 'A'.val ∧ c.val ≤ 'Z'.val) ↔ (65 ≤ c.toNat ∧ c.toNat ≤ 90) := by
    rw [ge_iff_le, UInt32.le_iff_toNat_le, UInt32.le_iff_toNat_le]
    rfl
  unfold Char.toLower
  split
  next inside =>
    have range := upper.mp inside
    rw [if_pos range]
    show (c.val + 32).toNat = c.val.toNat + 32
    have bound : c.val.toNat ≤ 90 := range.2
    rw [UInt32.toNat_add, Nat.mod_eq_of_lt]
    · rfl
    · show c.val.toNat + 32 < 2 ^ 32
      omega
  next outside => rw [if_neg fun range => outside (upper.mpr range)]

theorem hexValue_toLower (c : Char) : hexValue c.toLower = hexValue c := by
  unfold hexValue
  rw [toNat_toLower]
  split_ifs <;> first | rfl | omega

/-- Only a letter changes its case. -/
theorem of_toLower {c d : Char} (equal : c.toLower = d) (other : d.toNat < 97) : c = d := by
  have value := congrArg Char.toNat equal
  rw [toNat_toLower] at value
  refine Char.toNat_inj.mp ?_
  split_ifs at value <;> omega

theorem percentDecode_period {a b : Char} (first : a.toLower = '2') (second : b.toLower = 'e') (rest : Text) :
    percentDecode ('%' :: a :: b :: rest) = 46 :: percentDecode rest := by
  have high : hexValue a = some 2 := by rw [← hexValue_toLower, first]; rfl
  have low : hexValue b = some 14 := by rw [← hexValue_toLower, second]; rfl
  exact percentDecode_hex high low rest

/-- A segment that is a dot without regard to case and escapes begins with one. -/
theorem percentDecode_lower {t rest : Text} (dot : toAsciiLowercase t = '.' :: rest ∨
      toAsciiLowercase t = '%' :: '2' :: 'e' :: rest) :
    ∃ later, toAsciiLowercase later = rest ∧ percentDecode t = 46 :: percentDecode later := by
  rcases dot with literal | escaped
  · obtain ⟨a, later, rfl, first, tail⟩ := List.map_eq_cons_iff.mp literal
    obtain rfl := of_toLower first (by decide)
    refine ⟨later, tail, ?_⟩
    rw [percentDecode_cons (by decide)]
    rfl
  · obtain ⟨a, _, rfl, first, tail⟩ := List.map_eq_cons_iff.mp escaped
    obtain ⟨b, _, rfl, second, tail⟩ := List.map_eq_cons_iff.mp tail
    obtain ⟨c, later, rfl, third, tail⟩ := List.map_eq_cons_iff.mp tail
    obtain rfl := of_toLower first (by decide)
    exact ⟨later, tail, percentDecode_period second third later⟩

theorem percentDecode_singleDot {t : Text} (dot : isSingleDot t = true) : percentDecode t = [46] := by
  have either : toAsciiLowercase t = ['.'] ∨ toAsciiLowercase t = ['%', '2', 'e'] := by
    simpa [isSingleDot] using dot
  obtain ⟨later, empty, equal⟩ := percentDecode_lower either
  obtain rfl := List.map_eq_nil_iff.mp empty
  rw [equal, percentDecode]

theorem percentDecode_doubleDot {t : Text} (dot : isDoubleDot t = true) : percentDecode t = [46, 46] := by
  have either : (toAsciiLowercase t = '.' :: ['.'] ∨ toAsciiLowercase t = '%' :: '2' :: 'e' :: ['.']) ∨
      toAsciiLowercase t = '.' :: ['%', '2', 'e'] ∨ toAsciiLowercase t = '%' :: '2' :: 'e' :: ['%', '2', 'e'] := by
    have cases : toAsciiLowercase t = ['.', '.'] ∨ toAsciiLowercase t = ['.', '%', '2', 'e'] ∨
        toAsciiLowercase t = ['%', '2', 'e', '.'] ∨ toAsciiLowercase t = ['%', '2', 'e', '%', '2', 'e'] := by
      simpa [isDoubleDot] using dot
    tauto
  have again : ∃ later, (toAsciiLowercase later = ['.'] ∨ toAsciiLowercase later = ['%', '2', 'e']) ∧
      percentDecode t = 46 :: percentDecode later := by
    rcases either with first | second
    · obtain ⟨later, lower, equal⟩ := percentDecode_lower first
      exact ⟨later, Or.inl lower, equal⟩
    · obtain ⟨later, lower, equal⟩ := percentDecode_lower second
      exact ⟨later, Or.inr lower, equal⟩
  obtain ⟨later, dot, equal⟩ := again
  obtain ⟨last, empty, next⟩ := percentDecode_lower dot
  obtain rfl := List.map_eq_nil_iff.mp empty
  rw [equal, next, percentDecode]

/-- A name that is no dot and holds neither escape, separator nor end of the path is plain. -/
theorem plain_of_name {name : Text} (free : ∀ c ∈ name, isSeparator c = false ∧ endsPath c = false)
    (raw : ¬ Escaped name) (single : name ≠ ['.']) (double : name ≠ ['.', '.']) : Plain name := by
  have decoded : percentDecode (encode name) = utf8 name := by
    rw [percentDecode_encode]
    rcases percentDecode_spec name with ⟨-, equal⟩ | ⟨escaped, -⟩
    · exact equal
    · exact absurd escaped raw
  refine ⟨free, Bool.eq_false_iff.mpr fun dot => single ?_, Bool.eq_false_iff.mpr fun dot => double ?_⟩
  · exact utf8_injective (decoded.symm.trans (percentDecode_singleDot dot))
  · exact utf8_injective (decoded.symm.trans (percentDecode_doubleDot dot))

theorem infix_joinWith {t : Text} {parts : List Text} (inside : t ∈ parts) : t <:+: joinWith '/' parts := by
  induction parts with
  | nil => cases inside
  | cons first rest ih =>
      cases rest with
      | nil =>
          obtain rfl := List.mem_singleton.mp inside
          rw [joinWith_singleton]
      | cons second others =>
          rw [joinWith_cons]
          rcases List.mem_cons.mp inside with rfl | later
          · exact (List.prefix_append _ _).isInfix
          · exact (ih later).trans ((List.suffix_cons _ _).trans (List.suffix_append _ _)).isInfix

/-- Segments without escapes are decoded to the path that they make. -/
theorem decodedPath_raw {segments : List Text} (some : segments ≠ []) (raw : ∀ segment ∈ segments, ¬ Escaped segment) :
    decodedPath (segments.map encode) = utf8 ('/' :: joinWith '/' segments) := by
  induction segments with
  | nil => exact absurd rfl some
  | cons segment later ih =>
      have here : percentDecode (encode segment) = utf8 segment := by
        rw [percentDecode_encode]
        rcases percentDecode_spec segment with ⟨-, equal⟩ | ⟨escaped, -⟩
        · exact equal
        · exact absurd escaped (raw segment (List.mem_cons_self ..))
      have step : decodedPath ((segment :: later).map encode) =
          47 :: percentDecode (encode segment) ++ decodedPath (later.map encode) := rfl
      rw [step, here]
      cases later with
      | nil => simp [decodedPath, utf8_slash]
      | cons next others =>
          rw [ih (by simp) fun other inside => raw other (List.mem_cons_of_mem _ inside), joinWith_cons, utf8_slash,
            utf8_slash, utf8_append, utf8_slash, List.cons_append]

theorem blank_of_tab {c : Char} (tab : isTabOrNewline c = true) : isC0OrSpace c = true := by
  have either : (c = '\t' ∨ c = '\n') ∨ c = '\r' := by simpa [isTabOrNewline] using tab
  rcases either with (rfl | rfl) | rfl <;> rfl

theorem rdropWhile_append (p : Char → Bool) {front : Text} (rest : Text) (solid : ∀ c ∈ front.getLast?, p c = false) :
    (front ++ rest).rdropWhile p = front ++ rest.rdropWhile p := by
  induction rest using List.reverseRecOn with
  | nil =>
      rw [List.append_nil, List.rdropWhile_nil, List.append_nil, List.rdropWhile_eq_self_iff]
      intro filled
      simp [solid _ (List.getLast?_eq_some_getLast filled)]
  | append_singleton rest c ih =>
      rw [← List.append_assoc, List.rdropWhile_concat, List.rdropWhile_concat, ih]
      split
      · rfl
      · rw [List.append_assoc]

/-- The parser removes nothing of a front without blanks. -/
theorem cleaned_append {front : Text} (rest : Text) (some : front ≠ [])
    (solid : ∀ c ∈ front, isC0OrSpace c = false) :
    cleaned (front ++ rest) = front ++ (rest.rdropWhile isC0OrSpace).filter fun c => !isTabOrNewline c := by
  obtain ⟨c, others, rfl⟩ := List.exists_cons_of_ne_nil some
  have first : (c :: others ++ rest).dropWhile isC0OrSpace = c :: others ++ rest := by
    simp [solid c (List.mem_cons_self ..)]
  unfold cleaned
  rw [first, rdropWhile_append _ _ fun d last => solid d (List.mem_of_getLast? last), List.filter_append]
  congr 1
  refine List.filter_eq_self.mpr fun d inside => ?_
  cases tab : isTabOrNewline d
  · rfl
  · exact absurd (blank_of_tab tab) (by simp [solid d inside])

theorem rdropWhile_eq_self (p : Char → Bool) (t : Text) : t.rdropWhile p = t ↔ ∀ c ∈ t.getLast?, p c = false := by
  rw [List.rdropWhile_eq_self_iff]
  constructor
  · intro last c present
    have filled : t ≠ [] := by
      rintro rfl
      cases present
    obtain rfl := Option.some.inj ((List.getLast?_eq_some_getLast filled).symm.trans present)
    simpa using last filled
  · intro last filled
    simp [last _ (List.getLast?_eq_some_getLast filled)]

/-- The parser leaves a text as it is when it removes, skips and cuts nothing. -/
theorem takeWhile_eq_self {t names : Text} (shorter : t.Sublist names) (p : Char → Bool) :
    (t.filter fun c => !isTabOrNewline c).takeWhile p = names ↔
      (∀ c ∈ names, p c = true ∧ isTabOrNewline c = false) ∧ t = names := by
  constructor
  · intro same
    have kept : names.Sublist (t.filter fun c => !isTabOrNewline c) := by
      have taken : ((t.filter fun c => !isTabOrNewline c).takeWhile p).Sublist _ := List.takeWhile_sublist p
      rw [same] at taken
      exact taken
    have filtered : (t.filter fun c => !isTabOrNewline c) = names :=
      (List.filter_sublist.trans shorter).antisymm kept
    have equal : t = names := shorter.antisymm (kept.trans List.filter_sublist)
    refine ⟨fun c inside => ⟨?_, ?_⟩, equal⟩
    · rw [filtered] at same
      exact List.takeWhile_eq_self_iff.mp same c inside
    · rw [equal] at filtered
      simpa using List.filter_eq_self.mp filtered c inside
  · rintro ⟨free, rfl⟩
    rw [List.filter_eq_self.mpr fun c inside => by simp [(free c inside).2]]
    exact List.takeWhile_eq_self_iff.mpr fun c inside => (free c inside).1

/-- The path of a URL that begins with an origin is read from what follows the origin. -/
theorem path_origin {scheme authority rest : Text} (special : scheme = ['h', 't', 't', 'p'] ∨
      scheme = ['h', 't', 't', 'p', 's']) (some : authority ≠ [])
    (host : ∀ c ∈ authority, endsAuthority c = false ∧ isC0OrSpace c = false) {front : Text}
    (solid : ∀ c ∈ front, isC0OrSpace c = false) :
    path (scheme ++ [':', '/', '/'] ++ authority ++ '/' :: (front ++ rest)) =
      .some (pathState [] [] (front ++ (rest.rdropWhile isC0OrSpace).filter fun c => !isTabOrNewline c)) := by
  generalize kept : ((rest.rdropWhile isC0OrSpace).filter fun c => !isTabOrNewline c) = tail
  have clean : cleaned (scheme ++ [':', '/', '/'] ++ authority ++ '/' :: (front ++ rest)) =
      scheme ++ ':' :: '/' :: '/' :: (authority ++ '/' :: (front ++ tail)) := by
    have parts : scheme ++ [':', '/', '/'] ++ authority ++ '/' :: (front ++ rest) =
        (scheme ++ [':', '/', '/'] ++ authority ++ '/' :: front) ++ rest := by simp
    rw [parts, cleaned_append rest (by simp), kept]
    · simp
    · intro c inside
      simp only [List.mem_append, List.mem_cons, List.not_mem_nil, or_false] at inside
      rcases inside with ((inScheme | inMarks) | inAuthority) | inFront
      · rcases special with rfl | rfl <;> simp only [List.mem_cons, List.not_mem_nil, or_false] at inScheme
        · rcases inScheme with rfl | rfl | rfl | rfl <;> rfl
        · rcases inScheme with rfl | rfl | rfl | rfl | rfl <;> rfl
      · rcases inMarks with rfl | rfl | rfl <;> rfl
      · exact (host c inAuthority).2
      · rcases inFront with rfl | inFront
        · rfl
        · exact solid c inFront
  have authorityText : (authority ++ '/' :: (front ++ tail)).takeWhile (!endsAuthority ·) = authority ∧
      (authority ++ '/' :: (front ++ tail)).dropWhile (!endsAuthority ·) = '/' :: (front ++ tail) := by
    have stop : endsAuthority '/' = true := by decide
    have inside : ∀ c ∈ authority, (!endsAuthority c) = true := fun c present => by simp [(host c present).1]
    constructor
    · rw [List.takeWhile_append_of_pos inside, List.takeWhile_cons_of_neg (by simp [stop]), List.append_nil]
    · rw [List.dropWhile_append_of_pos inside, List.dropWhile_cons_of_neg (by simp [stop])]
  have skipped : ('/' :: '/' :: (authority ++ '/' :: (front ++ tail))).dropWhile isSeparator =
      authority ++ '/' :: (front ++ tail) := by
    obtain ⟨c, others, rfl⟩ := List.exists_cons_of_ne_nil some
    have separator : isSeparator c = false := by
      have both := (host c (List.mem_cons_self ..)).1
      simp only [endsAuthority, Bool.or_eq_false_iff] at both
      exact both.1
    rw [List.dropWhile_cons_of_pos (by decide), List.dropWhile_cons_of_pos (by decide), List.cons_append,
      List.dropWhile_cons_of_neg (by simp [separator])]
  have schemeText : (scheme ++ ':' :: '/' :: '/' :: (authority ++ '/' :: (front ++ tail))).takeWhile (· ≠ ':') =
      scheme := by
    rcases special with rfl | rfl <;> simp
  have isSpecial : isSpecialScheme scheme = true := by
    rcases special with rfl | rfl <;> decide
  unfold path
  rw [clean, schemeText]
  simp only []
  rw [show (scheme ++ ':' :: '/' :: '/' :: (authority ++ '/' :: (front ++ tail))).drop (scheme.length + 1) =
      '/' :: '/' :: (authority ++ '/' :: (front ++ tail)) by simp, skipped, authorityText.1, authorityText.2,
    if_pos ⟨isSpecial, some⟩]
  simp [show isSeparator '/' = true by decide]

end Url

import AeordbSync.Library.Characters
import Mathlib.Data.List.Basic
import Mathlib.Tactic

namespace Characters

/-- A byte that continues a character. -/
def isContinuation (b : UInt8) : Bool := decide (0x80 ≤ b.toNat ∧ b.toNat ≤ 0xBF)

def replacementChar : Char := '\uFFFD'

abbrev tail : Nat × Nat := (0x80, 0xBF)

/-- The ranges of the bytes that follow a first byte. -/
def followers (first : Nat) : Option (List (Nat × Nat)) :=
  if first < 0x80 then some []
  else if first < 0xC2 then none
  else if first < 0xE0 then some [tail]
  else if first = 0xE0 then some [(0xA0, 0xBF), tail]
  else if first = 0xED then some [(0x80, 0x9F), tail]
  else if first < 0xF0 then some [tail, tail]
  else if first = 0xF0 then some [(0x90, 0xBF), tail, tail]
  else if first < 0xF4 then some [tail, tail, tail]
  else if first = 0xF4 then some [(0x80, 0x8F), tail, tail]
  else none

/-- How many bytes are in the ranges, up to the first that is not. -/
def matched : List (Nat × Nat) → Bytes → Nat
  | range :: ranges, b :: rest => if range.1 ≤ b.toNat ∧ b.toNat ≤ range.2 then matched ranges rest + 1 else 0
  | _, _ => 0

/-- The character of a complete sequence of bytes. -/
def assemble : Bytes → Char
  | [a] => Char.ofNat a.toNat
  | [a, b] => Char.ofNat (a.toNat % 0x20 * 0x40 + b.toNat % 0x40)
  | [a, b, c] => Char.ofNat ((a.toNat % 0x10 * 0x40 + b.toNat % 0x40) * 0x40 + c.toNat % 0x40)
  | [a, b, c, d] =>
      Char.ofNat (((a.toNat % 0x08 * 0x40 + b.toNat % 0x40) * 0x40 + c.toNat % 0x40) * 0x40 + d.toNat % 0x40)
  | _ => replacementChar

/-- The first bytes belong to a character that has been read. -/
def lossyFrom : Nat → Bytes → Text
  | skip + 1, _ :: rest => lossyFrom skip rest
  | 0, b :: rest => match followers b.toNat with
      | none => replacementChar :: lossyFrom 0 rest
      | some ranges =>
          let n := matched ranges rest
          (if n = ranges.length then assemble (b :: rest.take n) else replacementChar) :: lossyFrom n rest
  | _, [] => []

/-- A sequence that does not become a character is replaced as far as it could have become one. -/
def fromUtf8Lossy (bytes : Bytes) : Text := lossyFrom 0 bytes

theorem lossyFrom_drop (n : Nat) (bytes : Bytes) : lossyFrom n bytes = fromUtf8Lossy (bytes.drop n) := by
  induction n generalizing bytes with
  | zero => rfl
  | succ n ih =>
      cases bytes with
      | nil => rfl
      | cons b rest => exact ih rest

theorem fromUtf8Lossy_nil : fromUtf8Lossy [] = [] := rfl

theorem fromUtf8Lossy_refused {b : UInt8} (refused : followers b.toNat = none) (rest : Bytes) :
    fromUtf8Lossy (b :: rest) = replacementChar :: fromUtf8Lossy rest := by
  show (match followers b.toNat with
    | none => _
    | some ranges => _) = _
  rw [refused]
  rfl

theorem fromUtf8Lossy_first {b : UInt8} {ranges : List (Nat × Nat)} (known : followers b.toNat = some ranges)
    (rest : Bytes) :
    fromUtf8Lossy (b :: rest) =
      (if matched ranges rest = ranges.length then assemble (b :: rest.take (matched ranges rest))
        else replacementChar) :: fromUtf8Lossy (rest.drop (matched ranges rest)) := by
  rw [← lossyFrom_drop]
  show (match followers b.toNat with
    | none => _
    | some ranges => _) = _
  rw [known]

/-- A sequence that is complete becomes its character. -/
theorem fromUtf8Lossy_complete {b : UInt8} {ranges : List (Nat × Nat)} {more rest : Bytes}
    (known : followers b.toNat = some ranges) (length : more.length = ranges.length)
    (inside : matched ranges (more ++ rest) = ranges.length) :
    fromUtf8Lossy (b :: (more ++ rest)) = assemble (b :: more) :: fromUtf8Lossy rest := by
  rw [fromUtf8Lossy_first known, if_pos inside, inside, ← length, List.take_left, List.drop_left]

theorem matched_cons {low high : Nat} {ranges : List (Nat × Nat)} {b : UInt8} {rest : Bytes}
    (lower : low ≤ b.toNat) (upper : b.toNat ≤ high) :
    matched ((low, high) :: ranges) (b :: rest) = matched ranges rest + 1 := by
  show (if low ≤ b.toNat ∧ b.toNat ≤ high then _ else _) = _
  rw [if_pos ⟨lower, upper⟩]

theorem toNat_ofNat {n : Nat} (small : n < 256) : (UInt8.ofNat n).toNat = n := by
  rw [UInt8.toNat_ofNat']
  exact Nat.mod_eq_of_lt small

/-- The byte that continues a character with some bits. -/
theorem toNat_continuation (bits : Nat) : (UInt8.ofNat (bits % 0x40 + 0x80)).toNat = bits % 0x40 + 0x80 :=
  toNat_ofNat (by omega)

theorem matched_continuation (bits : Nat) (ranges : List (Nat × Nat)) (rest : Bytes) :
    matched (tail :: ranges) (UInt8.ofNat (bits % 0x40 + 0x80) :: rest) = matched ranges rest + 1 := by
  have value := toNat_continuation bits
  exact matched_cons (by omega) (by omega)

theorem fromUtf8Lossy_one {v : Nat} (upper : v ≤ 0x7F) (rest : Bytes) :
    fromUtf8Lossy (UInt8.ofNat v :: rest) = Char.ofNat v :: fromUtf8Lossy rest := by
  have first : (UInt8.ofNat v).toNat = v := toNat_ofNat (by omega)
  have known : followers (UInt8.ofNat v).toNat = some [] := by
    rw [first]
    exact if_pos (by omega)
  refine (@fromUtf8Lossy_complete _ _ [] rest known rfl rfl).trans ?_
  rw [assemble, first]

theorem fromUtf8Lossy_two {v : Nat} (lower : 0x7F < v) (upper : v ≤ 0x7FF) (rest : Bytes) :
    fromUtf8Lossy (UInt8.ofNat (v / 0x40 % 0x20 + 0xC0) :: UInt8.ofNat (v % 0x40 + 0x80) :: rest) =
      Char.ofNat v :: fromUtf8Lossy rest := by
  have first : (UInt8.ofNat (v / 0x40 % 0x20 + 0xC0)).toNat = v / 0x40 % 0x20 + 0xC0 := toNat_ofNat (by omega)
  have known : followers (UInt8.ofNat (v / 0x40 % 0x20 + 0xC0)).toNat = some [tail] := by
    rw [first]
    unfold followers
    rw [if_neg (by omega), if_neg (by omega), if_pos (by omega)]
  have whole : (v / 0x40 % 0x20 + 0xC0) % 0x20 * 0x40 + (v % 0x40 + 0x80) % 0x40 = v := by omega
  refine (@fromUtf8Lossy_complete _ _ [_] rest known rfl (matched_continuation v [] rest)).trans ?_
  rw [assemble, first, toNat_continuation, whole]

/-- The second byte tells a character of three bytes from a shorter one and from a surrogate. -/
theorem followers_three {v : Nat} (lower : 0x7FF < v) (upper : v ≤ 0xFFFF) (valid : v < 0xD800 ∨ 0xDFFF < v) :
    ∃ low high, followers (v / 0x1000 % 0x10 + 0xE0) = some [(low, high), tail] ∧
      low ≤ v / 0x40 % 0x40 + 0x80 ∧ v / 0x40 % 0x40 + 0x80 ≤ high := by
  unfold followers
  rw [if_neg (by omega), if_neg (by omega), if_neg (by omega)]
  by_cases least : v / 0x1000 % 0x10 + 0xE0 = 0xE0
  · exact ⟨0xA0, 0xBF, if_pos least, by omega, by omega⟩
  rw [if_neg least]
  by_cases surrogates : v / 0x1000 % 0x10 + 0xE0 = 0xED
  · exact ⟨0x80, 0x9F, if_pos surrogates, by omega, by omega⟩
  rw [if_neg surrogates]
  exact ⟨0x80, 0xBF, if_pos (by omega), by omega, by omega⟩

theorem fromUtf8Lossy_three {v : Nat} (lower : 0x7FF < v) (upper : v ≤ 0xFFFF) (valid : v < 0xD800 ∨ 0xDFFF < v)
    (rest : Bytes) :
    fromUtf8Lossy (UInt8.ofNat (v / 0x1000 % 0x10 + 0xE0) :: UInt8.ofNat (v / 0x40 % 0x40 + 0x80) ::
      UInt8.ofNat (v % 0x40 + 0x80) :: rest) = Char.ofNat v :: fromUtf8Lossy rest := by
  have first : (UInt8.ofNat (v / 0x1000 % 0x10 + 0xE0)).toNat = v / 0x1000 % 0x10 + 0xE0 := toNat_ofNat (by omega)
  obtain ⟨low, high, known, least, most⟩ := followers_three lower upper valid
  rw [← first] at known
  rw [← toNat_continuation] at least most
  have inside : matched [(low, high), tail]
      (UInt8.ofNat (v / 0x40 % 0x40 + 0x80) :: UInt8.ofNat (v % 0x40 + 0x80) :: rest) = 2 := by
    rw [matched_cons least most, matched_continuation]
    rfl
  have whole : ((v / 0x1000 % 0x10 + 0xE0) % 0x10 * 0x40 + (v / 0x40 % 0x40 + 0x80) % 0x40) * 0x40 +
      (v % 0x40 + 0x80) % 0x40 = v := by omega
  refine (@fromUtf8Lossy_complete _ _ [_, _] rest known rfl inside).trans ?_
  rw [assemble, first, toNat_continuation, toNat_continuation, whole]

/-- The second byte tells a character of four bytes from a shorter one and from what is beyond the last. -/
theorem followers_four {v : Nat} (lower : 0xFFFF < v) (upper : v < 0x110000) :
    ∃ low high, followers (v / 0x40000 % 0x08 + 0xF0) = some [(low, high), tail, tail] ∧
      low ≤ v / 0x1000 % 0x40 + 0x80 ∧ v / 0x1000 % 0x40 + 0x80 ≤ high := by
  unfold followers
  rw [if_neg (by omega), if_neg (by omega), if_neg (by omega), if_neg (by omega), if_neg (by omega),
    if_neg (by omega)]
  by_cases least : v / 0x40000 % 0x08 + 0xF0 = 0xF0
  · exact ⟨0x90, 0xBF, if_pos least, by omega, by omega⟩
  rw [if_neg least]
  by_cases middle : v / 0x40000 % 0x08 + 0xF0 < 0xF4
  · exact ⟨0x80, 0xBF, if_pos middle, by omega, by omega⟩
  rw [if_neg middle]
  exact ⟨0x80, 0x8F, if_pos (by omega), by omega, by omega⟩

theorem fromUtf8Lossy_four {v : Nat} (lower : 0xFFFF < v) (upper : v < 0x110000) (rest : Bytes) :
    fromUtf8Lossy (UInt8.ofNat (v / 0x40000 % 0x08 + 0xF0) :: UInt8.ofNat (v / 0x1000 % 0x40 + 0x80) ::
      UInt8.ofNat (v / 0x40 % 0x40 + 0x80) :: UInt8.ofNat (v % 0x40 + 0x80) :: rest) =
      Char.ofNat v :: fromUtf8Lossy rest := by
  have first : (UInt8.ofNat (v / 0x40000 % 0x08 + 0xF0)).toNat = v / 0x40000 % 0x08 + 0xF0 := toNat_ofNat (by omega)
  obtain ⟨low, high, known, least, most⟩ := followers_four lower upper
  rw [← first] at known
  rw [← toNat_continuation] at least most
  have inside : matched [(low, high), tail, tail] (UInt8.ofNat (v / 0x1000 % 0x40 + 0x80) ::
      UInt8.ofNat (v / 0x40 % 0x40 + 0x80) :: UInt8.ofNat (v % 0x40 + 0x80) :: rest) = 3 := by
    rw [matched_cons least most, matched_continuation, matched_continuation]
    rfl
  have whole : (((v / 0x40000 % 0x08 + 0xF0) % 0x08 * 0x40 + (v / 0x1000 % 0x40 + 0x80) % 0x40) * 0x40 +
      (v / 0x40 % 0x40 + 0x80) % 0x40) * 0x40 + (v % 0x40 + 0x80) % 0x40 = v := by omega
  refine (@fromUtf8Lossy_complete _ _ [_, _, _] rest known rfl inside).trans ?_
  rw [assemble, first, toNat_continuation, toNat_continuation, toNat_continuation, whole]

/-- The bytes of a character become the character. -/
theorem fromUtf8Lossy_encode (c : Char) (rest : Bytes) :
    fromUtf8Lossy (String.utf8EncodeChar c ++ rest) = c :: fromUtf8Lossy rest := by
  have valid : c.val.toNat < 0xD800 ∨ 0xDFFF < c.val.toNat ∧ c.val.toNat < 0x110000 := c.valid
  have same : Char.ofNat c.val.toNat = c := Char.ofNat_toNat c
  unfold String.utf8EncodeChar
  generalize c.val.toNat = v at valid same
  rw [← same]
  dsimp only
  by_cases one : v ≤ 0x7F
  · rw [if_pos one]
    exact fromUtf8Lossy_one one rest
  rw [if_neg one]
  by_cases two : v ≤ 0x7FF
  · rw [if_pos two]
    exact fromUtf8Lossy_two (by omega) two rest
  rw [if_neg two]
  by_cases three : v ≤ 0xFFFF
  · rw [if_pos three]
    exact fromUtf8Lossy_three (by omega) three (by omega) rest
  · rw [if_neg three]
    exact fromUtf8Lossy_four (by omega) (by omega) rest

/-- What is well formed is read without a loss. -/
theorem fromUtf8Lossy_utf8 (t : Text) : fromUtf8Lossy (utf8 t) = t := by
  induction t with
  | nil => rfl
  | cons c rest ih =>
      show fromUtf8Lossy (String.utf8EncodeChar c ++ utf8 rest) = c :: rest
      rw [fromUtf8Lossy_encode, ih]

theorem isContinuation_eq {b : UInt8} : isContinuation b = true ↔ 0x80 ≤ b.toNat ∧ b.toNat ≤ 0xBF := by
  unfold isContinuation
  exact decide_eq_true_iff

/-- Only a byte that continues a character is in the range of a byte that follows. -/
theorem followers_ranges {first : Nat} {ranges : List (Nat × Nat)} (known : followers first = some ranges) :
    ∀ range ∈ ranges, 0x80 ≤ range.1 ∧ range.2 ≤ 0xBF := by
  unfold followers at known
  split_ifs at known <;> cases known <;> decide

theorem followers_continuation {b : UInt8} (continues : isContinuation b = true) : followers b.toNat = none := by
  obtain ⟨lower, upper⟩ := isContinuation_eq.mp continues
  unfold followers
  rw [if_neg (by omega), if_pos (by omega)]

section

variable {ranges : List (Nat × Nat)}

theorem matched_le (ranges : List (Nat × Nat)) (rest : Bytes) : matched ranges rest ≤ rest.length := by
  induction ranges generalizing rest with
  | nil => exact Nat.zero_le _
  | cons range ranges ih =>
      cases rest with
      | nil => exact Nat.le_refl _
      | cons b rest =>
          unfold matched
          split
          · exact Nat.succ_le_succ (ih rest)
          · exact Nat.zero_le _

theorem continuation_of_matched (inside : ∀ range ∈ ranges, 0x80 ≤ range.1 ∧ range.2 ≤ 0xBF) (rest : Bytes) :
    ∀ b ∈ rest.take (matched ranges rest), isContinuation b = true := by
  induction ranges generalizing rest with
  | nil =>
      intro b taken
      cases taken
  | cons range ranges ih =>
      cases rest with
      | nil =>
          intro b taken
          cases taken
      | cons first rest =>
          unfold matched
          split
          next within =>
            intro b taken
            rw [List.take_succ_cons] at taken
            rcases List.mem_cons.mp taken with rfl | later
            · have bounds := inside range (List.mem_cons_self ..)
              exact isContinuation_eq.mpr (by omega)
            · exact ih (fun range later => inside range (List.mem_cons_of_mem _ later)) rest b later
          next =>
            intro b taken
            cases taken

/-- A byte that starts a character ends what has been read of another. -/
theorem matched_append (inside : ∀ range ∈ ranges, 0x80 ≤ range.1 ∧ range.2 ≤ 0xBF) (front : Bytes) {rest : Bytes}
    (starts : ∀ b, rest.head? = some b → isContinuation b = false) :
    matched ranges (front ++ rest) = matched ranges front := by
  induction ranges generalizing front with
  | nil => cases front <;> rfl
  | cons range ranges ih =>
      have bounds := inside range (List.mem_cons_self ..)
      cases front with
      | nil =>
          cases rest with
          | nil => rfl
          | cons b rest =>
              have outside : ¬ (0x80 ≤ b.toNat ∧ b.toNat ≤ 0xBF) := fun within => by
                have continues := isContinuation_eq.mpr within
                rw [starts b rfl] at continues
                cases continues
              exact if_neg fun within => outside (by omega)
      | cons b front =>
          have later := ih (fun range later => inside range (List.mem_cons_of_mem _ later)) front
          show (if range.1 ≤ b.toNat ∧ b.toNat ≤ range.2 then matched ranges (front ++ rest) + 1 else 0) = _
          rw [later]
          rfl

end

/-- Where the rest starts with a character of its own, it is read for itself. -/
theorem lossyFrom_append {rest : Bytes} (starts : ∀ b, rest.head? = some b → isContinuation b = false)
    (front : Bytes) : ∀ skip ≤ front.length,
      lossyFrom skip (front ++ rest) = lossyFrom skip front ++ fromUtf8Lossy rest := by
  induction front with
  | nil =>
      intro skip short
      obtain rfl := Nat.le_zero.mp short
      rfl
  | cons b front ih =>
      intro skip short
      cases skip with
      | succ skip => exact ih skip (Nat.le_of_succ_le_succ short)
      | zero =>
          show fromUtf8Lossy (b :: (front ++ rest)) = fromUtf8Lossy (b :: front) ++ fromUtf8Lossy rest
          cases known : followers b.toNat with
          | none =>
              rw [fromUtf8Lossy_refused known, fromUtf8Lossy_refused known]
              exact congrArg _ (ih 0 (Nat.zero_le _))
          | some ranges =>
              have bound := matched_le ranges front
              have later := ih _ bound
              rw [lossyFrom_drop, lossyFrom_drop] at later
              rw [fromUtf8Lossy_first known, fromUtf8Lossy_first known,
                matched_append (followers_ranges known) front starts, later, List.take_append_of_le_length bound]
              rfl

theorem fromUtf8Lossy_append {rest : Bytes} (starts : ∀ b, rest.head? = some b → isContinuation b = false)
    (front : Bytes) : fromUtf8Lossy (front ++ rest) = fromUtf8Lossy front ++ fromUtf8Lossy rest :=
  lossyFrom_append starts front 0 (Nat.zero_le _)

/-- No chunk starts inside a character. -/
def BetweenCharacters (chunks : List Bytes) : Prop :=
  ∀ chunk ∈ chunks, ∀ b, chunk.head? = some b → isContinuation b = false

instance (chunks : List Bytes) : Decidable (BetweenCharacters chunks) :=
  @List.decidableBAll Bytes (fun chunk => ∀ b, chunk.head? = some b → isContinuation b = false)
    (fun chunk => @Option.decidableForallMem UInt8 (fun b => isContinuation b = false) _ chunk.head?) chunks

theorem BetweenCharacters.flatten {chunks : List Bytes} (between : BetweenCharacters chunks) :
    ∀ b, chunks.flatten.head? = some b → isContinuation b = false := by
  induction chunks with
  | nil =>
      intro b first
      cases first
  | cons chunk chunks ih =>
      cases chunk with
      | nil => exact ih fun chunk later => between chunk (List.mem_cons_of_mem _ later)
      | cons head rest => exact between (head :: rest) (List.mem_cons_self ..)

/-- Chunks that start with characters of their own can be read one by one. -/
theorem BetweenCharacters.read {chunks : List Bytes} (between : BetweenCharacters chunks) :
    chunks.flatMap fromUtf8Lossy = fromUtf8Lossy chunks.flatten := by
  induction chunks with
  | nil => rfl
  | cons chunk chunks ih =>
      have later : BetweenCharacters chunks := fun chunk inside => between chunk (List.mem_cons_of_mem _ inside)
      rw [List.flatMap_cons, List.flatten_cons, fromUtf8Lossy_append later.flatten, ih later]

/-- How many bytes start a character. -/
def leads (bytes : Bytes) : Nat := bytes.countP fun b => !isContinuation b

theorem leads_continuation {b : UInt8} (continues : isContinuation b = true) (rest : Bytes) :
    leads (b :: rest) = leads rest := by
  unfold leads
  rw [List.countP_cons, continues]
  rfl

theorem leads_cons_le (b : UInt8) (rest : Bytes) : leads (b :: rest) ≤ leads rest + 1 := by
  unfold leads
  rw [List.countP_cons]
  split <;> omega

/-- Every byte that starts a character is read as one. -/
theorem leads_le_lossyFrom (bytes : Bytes) : ∀ skip, (∀ b ∈ bytes.take skip, isContinuation b = true) →
    leads bytes ≤ (lossyFrom skip bytes).length := by
  induction bytes with
  | nil =>
      intro skip _
      exact Nat.zero_le _
  | cons b rest ih =>
      intro skip continues
      cases skip with
      | succ skip =>
          rw [leads_continuation (continues b (List.mem_cons_self ..))]
          exact ih skip fun other inside => continues other (List.mem_cons_of_mem _ inside)
      | zero =>
          have more := leads_cons_le b rest
          show _ ≤ (fromUtf8Lossy (b :: rest)).length
          cases known : followers b.toNat with
          | none =>
              have later := ih 0 fun other inside => by cases inside
              rw [fromUtf8Lossy_refused known, List.length_cons]
              exact more.trans (Nat.succ_le_succ later)
          | some ranges =>
              have later := ih (matched ranges rest) (continuation_of_matched (followers_ranges known) rest)
              rw [lossyFrom_drop] at later
              rw [fromUtf8Lossy_first known, List.length_cons]
              exact more.trans (Nat.succ_le_succ later)

theorem leads_le (bytes : Bytes) : leads bytes ≤ (fromUtf8Lossy bytes).length :=
  leads_le_lossyFrom bytes 0 fun b inside => by cases inside

/-- A byte that continues a character is replaced where a chunk starts with it. -/
theorem leads_lt {b : UInt8} (continues : isContinuation b = true) (rest : Bytes) :
    leads (b :: rest) < (fromUtf8Lossy (b :: rest)).length := by
  rw [leads_continuation continues, fromUtf8Lossy_refused (followers_continuation continues), List.length_cons]
  exact Nat.lt_succ_of_le (leads_le rest)

/-- A character has one byte that starts it. -/
theorem leads_encode (c : Char) (rest : Bytes) : leads (String.utf8EncodeChar c ++ rest) = leads rest + 1 := by
  have continuation : ∀ bits, isContinuation (UInt8.ofNat (bits % 0x40 + 0x80)) = true := fun bits => by
    have value := toNat_continuation bits
    exact isContinuation_eq.mpr (by omega)
  have start : ∀ n more, n < 0x80 ∨ 0xBF < n → n < 256 → leads (UInt8.ofNat n :: more) = leads more + 1 := by
    intro n more outside small
    have value : (UInt8.ofNat n).toNat = n := toNat_ofNat small
    have lead : isContinuation (UInt8.ofNat n) = false := by
      unfold isContinuation
      exact decide_eq_false (by omega)
    unfold leads
    rw [List.countP_cons, lead]
    rfl
  have valid : c.val.toNat < 0xD800 ∨ 0xDFFF < c.val.toNat ∧ c.val.toNat < 0x110000 := c.valid
  unfold String.utf8EncodeChar
  generalize c.val.toNat = v at valid
  dsimp only
  split_ifs <;> simp only [List.cons_append, List.nil_append]
  · exact start _ _ (by omega) (by omega)
  · rw [start _ _ (by omega) (by omega), leads_continuation (continuation _)]
  · rw [start _ _ (by omega) (by omega), leads_continuation (continuation _), leads_continuation (continuation _)]
  · rw [start _ _ (by omega) (by omega), leads_continuation (continuation _), leads_continuation (continuation _),
      leads_continuation (continuation _)]

theorem leads_utf8 (t : Text) : leads (utf8 t) = t.length := by
  induction t with
  | nil => rfl
  | cons c rest ih =>
      show leads (String.utf8EncodeChar c ++ utf8 rest) = _
      rw [leads_encode, ih, List.length_cons]

theorem leads_flatten_le (chunks : List Bytes) :
    leads chunks.flatten ≤ (chunks.flatMap fromUtf8Lossy).length := by
  induction chunks with
  | nil => exact Nat.le_refl _
  | cons chunk chunks ih =>
      rw [List.flatten_cons, List.flatMap_cons, List.length_append]
      unfold leads
      rw [List.countP_append]
      exact Nat.add_le_add (leads_le chunk) ih

/-- A chunk that starts inside a character makes the text longer. -/
theorem leads_flatten_lt {chunks : List Bytes} {chunk : Bytes} (inside : chunk ∈ chunks) {b : UInt8}
    (first : chunk.head? = some b) (continues : isContinuation b = true) :
    leads chunks.flatten < (chunks.flatMap fromUtf8Lossy).length := by
  obtain ⟨front, back, rfl⟩ := List.append_of_mem inside
  obtain ⟨rest, rfl⟩ : ∃ rest, chunk = b :: rest := by
    cases chunk with
    | nil => cases first
    | cons head rest => exact ⟨rest, by rw [Option.some.inj first]⟩
  have before := leads_flatten_le front
  have here := leads_lt continues rest
  have behind := leads_flatten_le back
  rw [List.flatten_append, List.flatten_cons, List.flatMap_append, List.flatMap_cons, List.length_append,
    List.length_append]
  unfold leads at before here behind ⊢
  rw [List.countP_append, List.countP_append]
  omega

/-- A text is read from its chunks without a loss exactly when no chunk starts inside a character. -/
theorem read_iff_between {t : Text} {chunks : List Bytes} (whole : chunks.flatten = utf8 t) :
    chunks.flatMap fromUtf8Lossy = t ↔ BetweenCharacters chunks := by
  constructor
  · intro same chunk inside b first
    by_contra continues
    have longer := leads_flatten_lt inside first (Bool.not_eq_false _ |>.mp continues)
    rw [whole, leads_utf8, same] at longer
    exact absurd longer (Nat.lt_irrefl _)
  · intro between
    rw [between.read, whole, fromUtf8Lossy_utf8]

theorem eq_of_ofNat_newline {v : Nat} (same : Char.ofNat v = '\n') : v = 10 := by
  unfold Char.ofNat at same
  split at same
  · exact congrArg Char.toNat same
  · cases congrArg Char.toNat same

theorem cons_of_matched {range : Nat × Nat} {ranges : List (Nat × Nat)} {rest : Bytes}
    (complete : matched (range :: ranges) rest = (range :: ranges).length) :
    ∃ b more, rest = b :: more ∧ range.1 ≤ b.toNat ∧ b.toNat ≤ range.2 ∧ matched ranges more = ranges.length := by
  cases rest with
  | nil => cases complete
  | cons b more =>
      unfold matched at complete
      split at complete
      next within => exact ⟨b, more, rfl, within.1, within.2, Nat.succ.inj complete⟩
      next => cases complete

/-- A character of several bytes is no newline. -/
theorem assemble_newline {b : UInt8} {ranges : List (Nat × Nat)} {rest : Bytes}
    (known : followers b.toNat = some ranges) (complete : matched ranges rest = ranges.length)
    (same : assemble (b :: rest.take (matched ranges rest)) = '\n') : b = 10 := by
  rw [complete] at same
  have bound := b.toNat_lt
  unfold followers at known
  split_ifs at known with ascii _ two least surrogates three first middle final <;> cases known
  · exact UInt8.toNat_inj.mp (eq_of_ofNat_newline same)
  · obtain ⟨c, more, rfl, lower, upper, -⟩ := cons_of_matched complete
    have value := eq_of_ofNat_newline same
    omega
  all_goals
    obtain ⟨c, more, rfl, lower, upper, complete⟩ := cons_of_matched complete
    obtain ⟨d, more, rfl, -, -, complete⟩ := cons_of_matched complete
  · have value := eq_of_ofNat_newline same
    omega
  · have value := eq_of_ofNat_newline same
    omega
  · have value := eq_of_ofNat_newline same
    omega
  all_goals
    obtain ⟨e, more, rfl, -, -, -⟩ := cons_of_matched complete
    have value := eq_of_ofNat_newline same
    omega

theorem count_newline_lossyFrom (bytes : Bytes) : ∀ skip,
    (lossyFrom skip bytes).count '\n' ≤ bytes.count 10 := by
  induction bytes with
  | nil =>
      intro skip
      cases skip <;> exact Nat.le_refl _
  | cons b rest ih =>
      intro skip
      have more : rest.count 10 ≤ (b :: rest).count 10 := List.count_le_count_cons
      cases skip with
      | succ skip => exact (ih skip).trans more
      | zero =>
          show (fromUtf8Lossy (b :: rest)).count '\n' ≤ _
          cases known : followers b.toNat with
          | none =>
              rw [fromUtf8Lossy_refused known, List.count_cons_of_ne (by decide)]
              exact (ih 0).trans more
          | some ranges =>
              have later := ih (matched ranges rest)
              rw [lossyFrom_drop] at later
              rw [fromUtf8Lossy_first known]
              split
              next complete =>
                by_cases newline : assemble (b :: rest.take (matched ranges rest)) = '\n'
                · rw [newline, assemble_newline known complete newline, List.count_cons_self, List.count_cons_self]
                  exact Nat.succ_le_succ later
                · rw [List.count_cons_of_ne newline]
                  exact later.trans more
              next =>
                rw [List.count_cons_of_ne (by decide)]
                exact later.trans more

theorem count_newline_read (chunks : List Bytes) :
    (chunks.flatMap fromUtf8Lossy).count '\n' ≤ chunks.flatten.count 10 := by
  induction chunks with
  | nil => exact Nat.le_refl _
  | cons chunk chunks ih =>
      rw [List.flatMap_cons, List.flatten_cons, List.count_append, List.count_append]
      exact Nat.add_le_add (count_newline_lossyFrom chunk 0) ih

/-- What ends with a newline is read so. -/
theorem getLast_read {chunks : List Bytes} (ends : chunks.flatten.getLast? = some 10) :
    (chunks.flatMap fromUtf8Lossy).getLast? = some '\n' := by
  induction chunks using List.reverseRecOn with
  | nil => cases ends
  | append_singleton chunks chunk ih =>
      rw [List.flatten_concat] at ends
      rw [List.flatMap_append, List.flatMap_singleton]
      rcases List.eq_nil_or_concat chunk with rfl | ⟨front, b, rfl⟩
      · rw [List.append_nil] at ends
        rw [fromUtf8Lossy_nil, List.append_nil]
        exact ih ends
      · rw [List.concat_eq_append] at ends ⊢
        rw [← List.append_assoc, List.getLast?_concat] at ends
        obtain rfl := Option.some.inj ends
        rw [fromUtf8Lossy_append (fun other first => by rw [← Option.some.inj first]; rfl), ← List.append_assoc]
        exact List.getLast?_concat

/-- Only a newline is written with the byte of a newline. -/
theorem count_newline_encode (c : Char) : (String.utf8EncodeChar c).count 10 ≤ [c].count '\n' := by
  have valid : c.val.toNat < 0xD800 ∨ 0xDFFF < c.val.toNat ∧ c.val.toNat < 0x110000 := c.valid
  have same : Char.ofNat c.val.toNat = c := Char.ofNat_toNat c
  have other : ∀ n, n < 256 → n ≠ 10 → ∀ more : Bytes, (UInt8.ofNat n :: more).count 10 = more.count 10 := by
    intro n small apart more
    refine List.count_cons_of_ne fun equal => apart ?_
    have value : (UInt8.ofNat n).toNat = 10 := congrArg UInt8.toNat equal
    rw [toNat_ofNat small] at value
    exact value
  unfold String.utf8EncodeChar
  generalize c.val.toNat = v at valid same
  dsimp only
  split_ifs
  · by_cases newline : v = 10
    · subst newline
      rw [← same]
      decide
    · rw [other v (by omega) newline]
      exact Nat.zero_le _
  · rw [other _ (by omega) (by omega), other _ (by omega) (by omega)]
    exact Nat.zero_le _
  · rw [other _ (by omega) (by omega), other _ (by omega) (by omega), other _ (by omega) (by omega)]
    exact Nat.zero_le _
  · rw [other _ (by omega) (by omega), other _ (by omega) (by omega), other _ (by omega) (by omega),
      other _ (by omega) (by omega)]
    exact Nat.zero_le _

theorem count_newline_utf8 (t : Text) : (utf8 t).count 10 ≤ t.count '\n' := by
  induction t with
  | nil => exact Nat.le_refl _
  | cons c rest ih =>
      show (String.utf8EncodeChar c ++ utf8 rest).count 10 ≤ ([c] ++ rest).count '\n'
      rw [List.count_append, List.count_append]
      exact Nat.add_le_add (count_newline_encode c) ih

end Characters

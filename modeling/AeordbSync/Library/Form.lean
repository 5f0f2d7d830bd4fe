import AeordbSync.Library.Url

namespace Url
open Characters

/-- The query percent-encode set of a special URL, by code points. -/
def inQuerySet (c : Char) : Bool :=
  decide (c.toNat ≤ 32) || decide (126 < c.toNat) || [34, 35, 39, 60, 62].contains c.toNat

/-- The query that a request for the URL carries. -/
def query (input : Text) : Option Text :=
  (splitOnce '?' ((cleaned input).takeWhile (· ≠ '#'))).map fun parts => escape inQuerySet parts.2

def plusToSpace (c : Char) : Char := if c = '+' then ' ' else c

def formDecode (t : Text) : Bytes := percentDecode (t.map plusToSpace)

def formPair (piece : Text) : Bytes × Bytes :=
  match splitOnce '=' piece with
  | some (name, value) => (formDecode name, formDecode value)
  | none => (formDecode piece, [])

/-- The parameters that a server reads from a query. -/
def formPairs (t : Text) : List (Bytes × Bytes) := ((t.splitOn '&').filter (· ≠ [])).map formPair

theorem formPairs_append (first second : Text) :
    formPairs (first ++ '&' :: second) = formPairs first ++ formPairs second := by
  rw [formPairs, List.splitOn_append_cons_self, List.filter_append, List.map_append]
  rfl

theorem formPairs_piece {piece : Text} (whole : '&' ∉ piece) (filled : piece ≠ []) :
    formPairs piece = [formPair piece] := by
  rw [formPairs, List.splitOn_eq_singleton whole]
  simp [filled]

theorem splitOnce_append {c : Char} {front : Text} (free : c ∉ front) (rest : Text) :
    splitOnce c (front ++ c :: rest) = some (front, rest) := by
  have others : ∀ d ∈ front, (d != c) = true := fun d inside => by
    simpa using fun same : d = c => free (same ▸ inside)
  rw [splitOnce, if_pos (by simp), List.takeWhile_append_of_pos others, List.dropWhile_append_of_pos others]
  simp

theorem formPair_append {name : Text} (free : '=' ∉ name) (value : Text) :
    formPair (name ++ '=' :: value) = (formDecode name, formDecode value) := by
  rw [formPair, splitOnce_append free]

/-- A set that holds no hexadecimal digit and no percent sign leaves every escape as it is. -/
theorem query_spares {c : Char} {n : Nat} (hex : hexValue c = some n) : inQuerySet c = false := by
  have range := hexValue_range hex
  simp only [inQuerySet, List.contains_cons, List.contains_nil, Bool.or_eq_false_iff, decide_eq_false_iff_not,
    beq_eq_false_iff_ne, ne_eq, Bool.or_false]
  omega

theorem plusToSpace_of_ne {c : Char} (different : c ≠ '+') : plusToSpace c = c := if_neg different

theorem plusToSpace_hex {c : Char} {n : Nat} (hex : hexValue c = some n) : plusToSpace c = c := by
  refine plusToSpace_of_ne ?_
  rintro rfl
  cases hex

theorem hex_plusToSpace {c : Char} {n : Nat} (hex : hexValue (plusToSpace c) = some n) : plusToSpace c = c := by
  refine plusToSpace_of_ne ?_
  rintro rfl
  cases hex

theorem plusToSpace_percent {c : Char} (different : c ≠ '%') : plusToSpace c ≠ '%' := by
  unfold plusToSpace
  split
  · decide
  · exact different

theorem plusToSpace_hexDigit : ∀ n < 16, plusToSpace (hexDigit n) = hexDigit n := by decide

theorem hexDigit_plain : ∀ n < 16, hexDigit n ≠ '&' ∧ hexDigit n ≠ '+' := by decide

/-- No escape holds a separator. -/
theorem encodeByte_free (byte : UInt8) : '&' ∉ percentEncodeByte byte := by
  have small : byte.toNat < 256 := byte.toNat_lt
  have high := hexDigit_plain (byte.toNat / 16) (by omega)
  have low := hexDigit_plain (byte.toNat % 16) (by omega)
  simp [percentEncodeByte, high.1.symm, low.1.symm]

/-- No escape holds a plus sign. -/
theorem map_encodeBytes (bytes : Bytes) :
    (bytes.flatMap percentEncodeByte).map plusToSpace = bytes.flatMap percentEncodeByte := by
  induction bytes with
  | nil => rfl
  | cons byte rest ih =>
      have small : byte.toNat < 256 := byte.toNat_lt
      rw [List.flatMap_cons, List.map_append, ih]
      simp only [percentEncodeByte, List.map_cons, List.map_nil, plusToSpace_hexDigit _ (show byte.toNat / 16 < 16 by omega),
        plusToSpace_hexDigit _ (show byte.toNat % 16 < 16 by omega)]
      rfl

theorem spells_spaced : Spells (fun c => [plusToSpace c]) fun c => String.utf8EncodeChar (plusToSpace c) := by
  refine ⟨rfl, fun c n hex => ?_, fun c rest different => ?_, fun c => ⟨plusToSpace c, [], rfl, fun n hex => hex_plusToSpace hex⟩⟩
  · rw [plusToSpace_hex hex]
  · exact percentDecode_cons (plusToSpace_percent different) rest

theorem spells_escaped : Spells (fun c => (escapeChar inQuerySet c).map plusToSpace)
    fun c => String.utf8EncodeChar (plusToSpace c) := by
  refine ⟨by decide, fun c n hex => ?_, fun c rest different => ?_, fun c => ?_⟩
  · rw [escapeChar, query_spares hex]
    exact congrArg (fun d => [d]) (plusToSpace_hex hex)
  · unfold escapeChar
    split
    next listed =>
      have kept : plusToSpace c = c := by
        refine plusToSpace_of_ne ?_
        rintro rfl
        revert listed
        decide
      rw [map_encodeBytes, percentDecode_encodeBytes, kept]
    next => exact percentDecode_cons (plusToSpace_percent different) rest
  · obtain ⟨d, rest, written, same⟩ := escapeChar_head inQuerySet c
    refine ⟨plusToSpace d, rest.map plusToSpace, by rw [written, List.map_cons], fun n hex => ?_⟩
    have kept := hex_plusToSpace hex
    rw [kept] at hex ⊢
    exact same n hex

/-- The escapes of a query are undone when the server decodes it. -/
theorem formDecode_escape (t : Text) : formDecode (escape inQuerySet t) = formDecode t := by
  have same := spells_escaped.decode spells_spaced t
  rw [← List.map_flatMap, ← List.map_eq_flatMap] at same
  exact same

theorem utf8_length_spaced (t : Text) : (utf8 (t.map plusToSpace)).length = (utf8 t).length := by
  induction t with
  | nil => rfl
  | cons c rest ih =>
      have sizes : (plusToSpace c).utf8Size = c.utf8Size := by
        unfold plusToSpace
        split
        next plus => rw [plus]; rfl
        next => rfl
      rw [List.map_cons, utf8_cons, utf8_cons, List.length_append, List.length_append, ih,
        String.length_utf8EncodeChar, String.length_utf8EncodeChar, sizes]

theorem formDecode_length (t : Text) : (formDecode t).length ≤ (utf8 t).length := by
  rw [← utf8_length_spaced]
  exact percentDecode_length _

/-- Decoding keeps exactly the texts without a plus sign and without an escape. -/
theorem formDecode_eq_utf8 {t : Text} : formDecode t = utf8 t ↔ '+' ∉ t ∧ ¬ Escaped t := by
  have spaced : t.map plusToSpace = t ↔ '+' ∉ t := by
    constructor
    · intro same inside
      rw [← same, List.mem_map] at inside
      obtain ⟨c, -, plus⟩ := inside
      unfold plusToSpace at plus
      split at plus
      · exact absurd plus (by decide)
      next different => exact different plus
    · intro free
      refine (List.map_congr_left fun c inside => ?_).trans (List.map_id t)
      exact plusToSpace_of_ne fun plus => free (plus ▸ inside)
  constructor
  · intro decoded
    rcases percentDecode_spec (t.map plusToSpace) with ⟨raw, equal⟩ | ⟨-, strict⟩
    · have same : t.map plusToSpace = t := utf8_injective (equal.symm.trans decoded)
      exact ⟨spaced.mp same, same ▸ raw⟩
    · rw [utf8_length_spaced, ← decoded] at strict
      exact absurd strict (lt_irrefl _)
  · rintro ⟨free, raw⟩
    rw [formDecode, spaced.mpr free]
    rcases percentDecode_spec t with ⟨-, equal⟩ | ⟨escaped, -⟩
    · exact equal
    · exact absurd escaped raw

/-- What the parser leaves of a value at the end of a URL. -/
def queryLeft (value : Text) : Text :=
  ((value.rdropWhile isC0OrSpace).filter fun c => !isTabOrNewline c).takeWhile (· ≠ '#')

/-- Neither the parser nor the reader of the query gives the text a meaning. -/
def Solid (t : Text) : Prop := ∀ c ∈ t, inQuerySet c = false ∧ c ≠ '&' ∧ c ≠ '=' ∧ c ≠ '+' ∧ c ≠ '%'

theorem forall_of_all {p : Char → Prop} [DecidablePred p] {t : Text} (all : (t.all fun c => decide (p c)) = true) :
    ∀ c ∈ t, p c := fun c inside => of_decide_eq_true (List.all_eq_true.mp all c inside)

theorem solid_of_all {t : Text}
    (all : (t.all fun c => decide (inQuerySet c = false ∧ c ≠ '&' ∧ c ≠ '=' ∧ c ≠ '+' ∧ c ≠ '%')) = true) : Solid t :=
  forall_of_all all

theorem blank_listed {c : Char} (spared : inQuerySet c = false) : isC0OrSpace c = false ∧ c ≠ '#' := by
  constructor
  · rw [inQuerySet, Bool.or_eq_false_iff, Bool.or_eq_false_iff] at spared
    exact spared.1.1
  · rintro rfl
    revert spared
    decide

theorem escape_eq_self {t : Text} (spared : ∀ c ∈ t, inQuerySet c = false) : escape inQuerySet t = t := by
  induction t with
  | nil => rfl
  | cons c rest ih =>
      have first : escapeChar inQuerySet c = [c] := by
        rw [escapeChar, spared c (List.mem_cons_self ..)]
        rfl
      have rest := ih fun d inside => spared d (List.mem_cons_of_mem _ inside)
      rw [escape, List.flatMap_cons, first, ← escape, rest, List.singleton_append]

theorem escape_append (first second : Text) :
    escape inQuerySet (first ++ second) = escape inQuerySet first ++ escape inQuerySet second :=
  List.flatMap_append

theorem not_escaped {t : Text} (free : '%' ∉ t) : ¬ Escaped t := by
  rintro ⟨front, rest, rfl, -⟩
  exact free (by simp)

theorem Solid.decoded {t : Text} (solid : Solid t) : formDecode t = utf8 t :=
  formDecode_eq_utf8.mpr ⟨fun inside => (solid _ inside).2.2.2.1 rfl, not_escaped fun inside => (solid _ inside).2.2.2.2 rfl⟩

/-- The fields of a query before its last one. -/
def leading (fields : List (Text × Text)) : Text := fields.flatMap fun field => field.1 ++ '=' :: field.2 ++ ['&']

theorem leading_spared {fields : List (Text × Text)} (solid : ∀ field ∈ fields, Solid field.1 ∧ Solid field.2) :
    ∀ c ∈ leading fields, inQuerySet c = false := by
  intro c inside
  obtain ⟨field, listed, part⟩ := List.mem_flatMap.mp inside
  simp only [List.append_assoc, List.mem_append, List.mem_cons, List.not_mem_nil, or_false] at part
  rcases part with name | (rfl | value) | rfl
  · exact ((solid field listed).1 c name).1
  · decide
  · exact ((solid field listed).2 c value).1
  · decide

theorem formPairs_leading {fields : List (Text × Text)} (solid : ∀ field ∈ fields, Solid field.1 ∧ Solid field.2)
    (rest : Text) : formPairs (leading fields ++ rest) =
      fields.map (fun field => (utf8 field.1, utf8 field.2)) ++ formPairs rest := by
  induction fields with
  | nil => rfl
  | cons field later ih =>
      obtain ⟨name, value⟩ := solid field (List.mem_cons_self ..)
      have whole : '&' ∉ field.1 ++ '=' :: field.2 := by
        rw [List.mem_append, List.mem_cons]
        rintro (inName | equal | inValue)
        · exact (name _ inName).2.1 rfl
        · exact absurd equal (by decide)
        · exact (value _ inValue).2.1 rfl
      have first : leading (field :: later) ++ rest = (field.1 ++ '=' :: field.2) ++ '&' :: (leading later ++ rest) := by
        simp [leading]
      rw [first, formPairs_append, formPairs_piece whole (by simp),
        formPair_append (fun inside => (name _ inside).2.2.1 rfl), name.decoded, value.decoded,
        ih fun other inside => solid other (List.mem_cons_of_mem _ inside), List.map_cons, List.singleton_append,
        List.cons_append]

theorem formPair_named {name : Text} (named : Solid name) (value : Text) :
    formPair (name ++ '=' :: value) = (utf8 name, formDecode value) := by
  rw [formPair_append fun inside => (named _ inside).2.2.1 rfl, named.decoded]

/-- A value without a separator is one parameter. -/
theorem formPairs_value {name value : Text} (named : Solid name) (whole : '&' ∉ value) :
    formPairs (name ++ '=' :: escape inQuerySet value) = [(utf8 name, formDecode value)] := by
  have kept : '&' ∉ escape inQuerySet value := by
    intro inside
    obtain ⟨c, listed, written⟩ := List.mem_flatMap.mp inside
    unfold escapeChar at written
    split at written
    · obtain ⟨byte, -, digit⟩ := List.mem_flatMap.mp written
      exact absurd digit (encodeByte_free byte)
    · exact whole (List.mem_singleton.mp written ▸ listed)
  have piece : '&' ∉ name ++ '=' :: escape inQuerySet value := by
    rw [List.mem_append, List.mem_cons]
    rintro (inName | equal | inValue)
    · exact (named _ inName).2.1 rfl
    · exact absurd equal (by decide)
    · exact kept inValue
  rw [formPairs_piece piece (by simp), formPair_named named, formDecode_escape]

/-- What stands behind the first separator of a value is read as parameters of its own. -/
theorem formPairs_cut {name front : Text} (named : Solid name) (whole : '&' ∉ front) (rest : Text) :
    formPairs (name ++ '=' :: escape inQuerySet (front ++ '&' :: rest)) =
      (utf8 name, formDecode front) :: formPairs (escape inQuerySet rest) := by
  have parts : name ++ '=' :: escape inQuerySet (front ++ '&' :: rest) =
      (name ++ '=' :: escape inQuerySet front) ++ '&' :: escape inQuerySet rest := by
    rw [escape_append, show escape inQuerySet ('&' :: rest) = '&' :: escape inQuerySet rest from rfl, List.append_assoc,
      List.cons_append]
  rw [parts, formPairs_append, formPairs_value named whole, List.singleton_append]

/-- The value of a parameter at the end of a URL is read as it is: nothing of it is removed, ends it, is a separator
or is decoded. -/
def QueryClear (value : Text) : Prop :=
  (∀ c ∈ value, c ≠ '#' ∧ c ≠ '&' ∧ c ≠ '+' ∧ isTabOrNewline c = false) ∧ ¬ Escaped value ∧
    ∀ c ∈ value.getLast?, isC0OrSpace c = false

theorem queryLeft_sublist (value : Text) : (queryLeft value).Sublist value :=
  (List.takeWhile_sublist _).trans (List.filter_sublist.trans (List.rdropWhile_prefix _ value).sublist)

theorem queryLeft_eq_self {value : Text} : queryLeft value = value ↔
    (∀ c ∈ value, c ≠ '#' ∧ isTabOrNewline c = false) ∧ ∀ c ∈ value.getLast?, isC0OrSpace c = false := by
  have shorter : (value.rdropWhile isC0OrSpace).Sublist value := (List.rdropWhile_prefix _ value).sublist
  rw [queryLeft, takeWhile_eq_self shorter, rdropWhile_eq_self]
  simp

theorem queryClear_iff {value : Text} : QueryClear value ↔
    queryLeft value = value ∧ '&' ∉ value ∧ formDecode value = utf8 value := by
  rw [queryLeft_eq_self, formDecode_eq_utf8]
  constructor
  · rintro ⟨free, raw, last⟩
    exact ⟨⟨fun c inside => ⟨(free c inside).1, (free c inside).2.2.2⟩, last⟩,
      fun inside => (free _ inside).2.1 rfl, fun inside => (free _ inside).2.2.1 rfl, raw⟩
  · rintro ⟨⟨free, last⟩, whole, plus, raw⟩
    refine ⟨fun c inside => ⟨(free c inside).1, ?_, ?_, (free c inside).2⟩, raw, last⟩
    · rintro rfl
      exact whole inside
    · rintro rfl
      exact plus inside

section Query

variable {front : Text} {fields : List (Text × Text)} {name : Text} (value : Text)
  (opens : ∀ c ∈ front, isC0OrSpace c = false ∧ c ≠ '?' ∧ c ≠ '#')
  (solid : ∀ field ∈ fields, Solid field.1 ∧ Solid field.2) (named : Solid name)
include opens solid named

/-- The server reads the leading fields, and what it makes of the last one. -/
theorem query_reads : (query (front ++ '?' :: (leading fields ++ (name ++ '=' :: value)))).map formPairs =
    some (fields.map (fun field => (utf8 field.1, utf8 field.2)) ++
      formPairs (name ++ '=' :: escape inQuerySet (queryLeft value))) := by
  have spared : ∀ c ∈ leading fields ++ name ++ ['='], inQuerySet c = false := by
    intro c inside
    rcases List.mem_append.mp inside with before | equal
    · rcases List.mem_append.mp before with field | inName
      · exact leading_spared solid c field
      · exact (named c inName).1
    · rw [List.mem_singleton.mp equal]
      decide
  have lead : ∀ c ∈ front ++ '?' :: (leading fields ++ name ++ ['=']), isC0OrSpace c = false ∧ c ≠ '#' := by
    intro c inside
    rcases List.mem_append.mp inside with early | late
    · exact ⟨(opens c early).1, (opens c early).2.2⟩
    · rcases List.mem_cons.mp late with rfl | inField
      · decide
      · exact blank_listed (spared c inField)
  have parts : front ++ '?' :: (leading fields ++ (name ++ '=' :: value)) =
      (front ++ '?' :: (leading fields ++ name ++ ['='])) ++ value := by simp
  have parsed : (cleaned (front ++ '?' :: (leading fields ++ (name ++ '=' :: value)))).takeWhile (· ≠ '#') =
      front ++ '?' :: ((leading fields ++ name ++ ['=']) ++ queryLeft value) := by
    rw [parts, cleaned_append value (by simp) fun c inside => (lead c inside).1,
      List.takeWhile_append_of_pos fun c inside => by simpa using (lead c inside).2, List.append_assoc, List.cons_append]
    rfl
  rw [query, parsed, splitOnce_append fun inside => (opens _ inside).2.1 rfl, Option.map_some, Option.map_some,
    escape_append, escape_eq_self spared, List.append_assoc, List.append_assoc, formPairs_leading solid]
  rfl

/-- The server reads the value that was meant exactly when the URL gives none of its characters a meaning. -/
theorem query_reads_iff : (query (front ++ '?' :: (leading fields ++ (name ++ '=' :: value)))).map formPairs =
    some (fields.map (fun field => (utf8 field.1, utf8 field.2)) ++ [(utf8 name, utf8 value)]) ↔ QueryClear value := by
  rw [query_reads value opens solid named, Option.some.injEq, List.append_cancel_left_eq, queryClear_iff]
  have bytes := (queryLeft_sublist value).flatMap String.utf8EncodeChar
  have shorter : (utf8 (queryLeft value)).length ≤ (utf8 value).length := bytes.length_le
  constructor
  · intro read
    by_cases separated : '&' ∈ queryLeft value
    · obtain ⟨before, rest, equal, whole⟩ := List.eq_append_cons_of_mem separated
      rw [equal, formPairs_cut named whole, List.cons.injEq, Prod.mk.injEq] at read
      have bound := formDecode_length before
      rw [read.1.2] at bound
      rw [equal, utf8_append, List.length_append, utf8_cons, List.length_append] at shorter
      have filled := String.length_utf8EncodeChar '&'
      have positive := Char.utf8Size_pos '&'
      omega
    · rw [formPairs_value named separated, List.cons.injEq, Prod.mk.injEq] at read
      have decoded := read.1.2
      have bound := formDecode_length (queryLeft value)
      rw [decoded] at bound
      have kept : queryLeft value = value := utf8_injective (bytes.eq_of_length (shorter.antisymm bound))
      rw [kept] at decoded separated
      exact ⟨kept, separated, decoded⟩
  · rintro ⟨kept, whole, decoded⟩
    rw [kept, formPairs_value named whole, decoded]

end Query

end Url

import AeordbSync.Routes.Ranges

namespace AeordbSync
open Characters OsPath FileSystem

def IsNumeral (t : Text) : Prop := t ≠ [] ∧ t.all Char.isDigit = true

instance (t : Text) : Decidable (IsNumeral t) := inferInstanceAs (Decidable (_ ∧ _))

def numeral (t : Text) : Nat := t.foldl (fun value digit => 10 * value + (digit.toNat - '0'.toNat)) 0

/-- A number has no sign, and it fits into so many bits. -/
def PlainNumber (bits : Nat) (t : Text) : Prop :=
  (∀ digits, t = '+' :: digits → ¬ IsNumeral digits) ∧ (IsNumeral t → numeral t < 2 ^ bits)

/-- What a range header asks of a file. -/
inductive RangeRequest where
  | suffix (length : Nat)
  | since (first : Nat)
  | between (first last : Nat)

namespace RangeRequest

/-- The texts of the requests. -/
inductive Reads : Text → RangeRequest → Prop
  | suffix {length : Text} : IsNumeral length → Reads ('-' :: length) (.suffix (numeral length))
  | since {first : Text} : IsNumeral first → Reads (first ++ ['-']) (.since (numeral first))
  | between {first last : Text} : IsNumeral first → IsNumeral last →
      Reads (first ++ '-' :: last) (.between (numeral first) (numeral last))

/-- The positions of a file that are asked for. -/
def Covers (fileLen : Nat) : RangeRequest → Nat → Prop
  | suffix length, position => fileLen ≤ position + length
  | since first, position => first ≤ position
  | between first last, position => first ≤ position ∧ position ≤ last

/-- No position of the file is asked for. -/
def Unsatisfiable (fileLen : Nat) : RangeRequest → Prop
  | suffix length => length = 0
  | since first => fileLen ≤ first
  | between first last => fileLen ≤ first ∨ min last (fileLen - 1) < first

/-- The range that a request stands for. -/
def range (fileLen : Nat) : RangeRequest → ByteRange
  | suffix length => ⟨fileLen - length, fileLen - 1⟩
  | since first => ⟨first, fileLen - 1⟩
  | between first last => ⟨first, min last (fileLen - 1)⟩

instance (fileLen : Nat) (request : RangeRequest) : Decidable (request.Unsatisfiable fileLen) := by
  cases request <;> unfold Unsatisfiable <;> infer_instance

end RangeRequest

/-- The header names a list of ranges in bytes. -/
def BytesSpec (rangeHeader : Option (Option Text)) (spec : Text) : Prop :=
  ∃ value, rangeHeader = some (some value) ∧ trim value = text "bytes=" ++ spec

/-- The header is absent, or its unit is not bytes. -/
def Unranged (rangeHeader : Option (Option Text)) : Prop :=
  rangeHeader = none ∨ ∃ value, rangeHeader = some (some value) ∧ ¬ text "bytes=" <+: trim value

/-- The reasons for which a list of ranges is refused. -/
def Refused (fileLen : Nat) (spec : Text) : Prop :=
  fileLen = 0 ∨ ',' ∈ spec ∨ (¬ ∃ request, RangeRequest.Reads spec request) ∨
    ∃ request, RangeRequest.Reads spec request ∧ request.Unsatisfiable fileLen

section

theorem parseUnsigned_iff {bits : Nat} {t : Text} {n : Nat} (plain : PlainNumber bits t) :
    parseUnsigned bits t = some n ↔ IsNumeral t ∧ numeral t = n := by
  obtain ⟨unsigned, fits⟩ := plain
  have digits : ∀ rest, t = '+' :: rest → ¬ IsNumeral rest ∧ ¬ IsNumeral t := by
    intro rest whole
    refine ⟨unsigned rest whole, ?_⟩
    intro numeral
    rw [whole] at numeral
    exact absurd numeral.2 (by simp)
  unfold parseUnsigned
  split
  next rest =>
    obtain ⟨bad, worse⟩ := digits rest rfl
    have neither : ¬ (rest ≠ [] ∧ rest.all Char.isDigit = true) := bad
    simp only [if_neg neither, worse, false_and, reduceCtorEq]
  next =>
    by_cases valid : IsNumeral t
    · have both : t ≠ [] ∧ t.all Char.isDigit = true := valid
      rw [if_pos both]
      have small := fits valid
      simp only [numeral] at small ⊢
      rw [if_pos small]
      simp [valid]
    · have neither : ¬ (t ≠ [] ∧ t.all Char.isDigit = true) := valid
      rw [if_neg neither]
      simp [valid]

theorem parseUnsigned_eq_none {bits : Nat} {t : Text} (plain : PlainNumber bits t) (other : ¬ IsNumeral t) :
    parseUnsigned bits t = none := by
  cases parsed : parseUnsigned bits t with
  | none => rfl
  | some n => exact absurd ((parseUnsigned_iff plain).mp parsed).1 other

theorem parseUnsigned_numeral {bits : Nat} {t : Text} (plain : PlainNumber bits t) (valid : IsNumeral t) :
    parseUnsigned bits t = some (numeral t) :=
  (parseUnsigned_iff plain).mpr ⟨valid, rfl⟩

theorem IsNumeral.not_mem {t : Text} {c : Char} (valid : IsNumeral t) (other : c.isDigit = false) : c ∉ t := by
  intro inside
  have digit := List.all_eq_true.mp valid.2 c inside
  rw [other] at digit
  cases digit

theorem splitOnce_append {c : Char} {front : Text} (free : c ∉ front) (back : Text) :
    splitOnce c (front ++ c :: back) = some (front, back) := by
  have before : ∀ d ∈ front, (d != c) = true := by
    intro d inside
    exact bne_iff_ne.mpr fun same => free (same ▸ inside)
  simp [splitOnce, List.takeWhile_append_of_pos before, List.dropWhile_append_of_pos before]

theorem splitOnce_eq_some {c : Char} {t front back : Text} (cut : splitOnce c t = some (front, back)) :
    t = front ++ c :: back ∧ c ∉ front := by
  by_cases inside : c ∈ t
  · obtain ⟨first, rest, rfl, free⟩ := List.eq_append_cons_of_mem inside
    rw [splitOnce_append free, Option.some.injEq, Prod.mk.injEq] at cut
    obtain ⟨rfl, rfl⟩ := cut
    exact ⟨rfl, free⟩
  · rw [splitOnce, if_neg inside] at cut
    cases cut

variable {fileLen : Nat} {value spec : Text} {request : RangeRequest}

/-- The numbers around a separator are plain ones. -/
def PlainSpec (spec : Text) : Prop :=
  ∀ front back, spec = front ++ '-' :: back → PlainNumber 64 front ∧ PlainNumber 64 back

theorem RangeRequest.Reads.comma (reads : RangeRequest.Reads spec request) : ',' ∉ spec := by
  have free : ∀ {t : Text}, IsNumeral t → ',' ∉ t := fun valid => valid.not_mem (by decide)
  cases reads with
  | suffix length => simpa using free length
  | since first => simpa using free first
  | between first last => simpa using ⟨free first, free last⟩

theorem parseByteRange_suffix {length : Text} (named : trim value = text "bytes=" ++ '-' :: length)
    (plain : PlainNumber 64 length) (nonempty : fileLen ≠ 0) (valid : IsNumeral length) :
    parseByteRange (some (some value)) fileLen =
      if numeral length = 0 then .error () else .ok (some ⟨fileLen - numeral length, fileLen - 1⟩) := by
  have single : ',' ∉ '-' :: length := RangeRequest.Reads.comma (.suffix valid)
  have cut : splitOnce '-' ('-' :: length) = some ([], length) := splitOnce_append List.not_mem_nil length
  simp only [parseByteRange, named, List.prefix_append, if_true, List.drop_left, nonempty, single, or_self, if_false,
    cut, parseUnsigned_numeral plain valid]

theorem parseByteRange_since {first : Text} (named : trim value = text "bytes=" ++ (first ++ ['-']))
    (plain : PlainNumber 64 first) (nonempty : fileLen ≠ 0) (valid : IsNumeral first) :
    parseByteRange (some (some value)) fileLen =
      if fileLen ≤ numeral first then .error () else .ok (some ⟨numeral first, fileLen - 1⟩) := by
  cases first with
  | nil => exact absurd rfl valid.1
  | cons c rest =>
      have single : ',' ∉ (c :: rest) ++ ['-'] := RangeRequest.Reads.comma (.since valid)
      have cut : splitOnce '-' ((c :: rest) ++ ['-']) = some (c :: rest, []) :=
        splitOnce_append (valid.not_mem (by decide)) []
      simp only [parseByteRange, named, List.prefix_append, if_true, List.drop_left, nonempty, single, or_self,
        if_false, cut, parseUnsigned_numeral plain valid]
      split
      · rfl
      next inside => rw [if_neg (by omega)]

theorem parseByteRange_between {first last : Text} (named : trim value = text "bytes=" ++ (first ++ '-' :: last))
    (plain : PlainNumber 64 first) (plain' : PlainNumber 64 last) (nonempty : fileLen ≠ 0) (valid : IsNumeral first)
    (valid' : IsNumeral last) :
    parseByteRange (some (some value)) fileLen =
      if fileLen ≤ numeral first ∨ min (numeral last) (fileLen - 1) < numeral first then .error ()
      else .ok (some ⟨numeral first, min (numeral last) (fileLen - 1)⟩) := by
  cases first with
  | nil => exact absurd rfl valid.1
  | cons c rest =>
      have single : ',' ∉ (c :: rest) ++ '-' :: last := RangeRequest.Reads.comma (.between valid valid')
      have cut : splitOnce '-' ((c :: rest) ++ '-' :: last) = some (c :: rest, last) :=
        splitOnce_append (valid.not_mem (by decide)) last
      simp only [parseByteRange, named, List.prefix_append, if_true, List.drop_left, nonempty, single, or_self,
        if_false, cut, parseUnsigned_numeral plain valid, valid'.1, parseUnsigned_numeral plain' valid', Option.map_some]
      by_cases beyond : fileLen ≤ numeral (c :: rest)
      · rw [if_pos beyond, if_pos (Or.inl beyond)]
      · simp only [beyond, false_or, if_false]

/-- A text that is no request is refused. -/
theorem parseByteRange_unread (named : trim value = text "bytes=" ++ spec) (plain : PlainSpec spec)
    (unread : ¬ ∃ request, RangeRequest.Reads spec request) :
    parseByteRange (some (some value)) fileLen = .error () := by
  simp only [parseByteRange, named, List.prefix_append, if_true, List.drop_left]
  split
  · rfl
  · cases cut : splitOnce '-' spec with
    | none => rfl
    | some parts =>
        obtain ⟨front, back⟩ := parts
        obtain ⟨rfl, free⟩ := splitOnce_eq_some cut
        obtain ⟨plainFront, plainBack⟩ := plain front back rfl
        cases front with
        | nil =>
            have bad : ¬ IsNumeral back := fun valid => unread ⟨_, RangeRequest.Reads.suffix valid⟩
            simp only [parseUnsigned_eq_none plainBack bad]
        | cons c rest =>
            by_cases valid : IsNumeral (c :: rest)
            · have filled : back ≠ [] := by
                intro empty
                subst empty
                exact unread ⟨_, RangeRequest.Reads.since valid⟩
              have bad : ¬ IsNumeral back := fun valid' => unread ⟨_, RangeRequest.Reads.between valid valid'⟩
              simp only [parseUnsigned_numeral plainFront valid, filled, if_false, parseUnsigned_eq_none plainBack bad,
                Option.map_none, ite_self]
            · simp only [parseUnsigned_eq_none plainFront valid]

/-- A request that can be read is answered by its range. -/
theorem parseByteRange_reads (named : trim value = text "bytes=" ++ spec) (plain : PlainSpec spec)
    (nonempty : fileLen ≠ 0) (reads : RangeRequest.Reads spec request) :
    parseByteRange (some (some value)) fileLen =
      if request.Unsatisfiable fileLen then .error () else .ok (some (request.range fileLen)) := by
  cases reads with
  | @suffix length valid => exact parseByteRange_suffix named (plain [] length rfl).2 nonempty valid
  | @since first valid => exact parseByteRange_since named (plain first [] rfl).1 nonempty valid
  | @between first last valid valid' =>
      obtain ⟨plainFirst, plainLast⟩ := plain first last rfl
      exact parseByteRange_between named plainFirst plainLast nonempty valid valid'

/-- A satisfiable request has a range that lies in the file and holds the positions that are asked for. -/
theorem RangeRequest.range_exact (nonempty : fileLen ≠ 0) (satisfiable : ¬ request.Unsatisfiable fileLen) :
    (request.range fileLen).first ≤ (request.range fileLen).last ∧ (request.range fileLen).last < fileLen ∧
      ∀ position, (request.range fileLen).first ≤ position ∧ position ≤ (request.range fileLen).last ↔
        position < fileLen ∧ request.Covers fileLen position := by
  cases request with
  | suffix length =>
      have some : length ≠ 0 := satisfiable
      simp only [range, Covers]
      refine ⟨by omega, by omega, fun position => ?_⟩
      omega
  | since first =>
      have inside : ¬ fileLen ≤ first := satisfiable
      simp only [range, Covers]
      refine ⟨by omega, by omega, fun position => ?_⟩
      omega
  | between first last =>
      have inside : ¬ (fileLen ≤ first ∨ min last (fileLen - 1) < first) := satisfiable
      simp only [range, Covers]
      refine ⟨by omega, by omega, fun position => ?_⟩
      omega

theorem parseByteRange_unranged {rangeHeader : Option (Option Text)} (unranged : Unranged rangeHeader) :
    parseByteRange rangeHeader fileLen = .ok none := by
  cases unranged with
  | inl absent => rw [absent, parseByteRange]
  | inr other =>
      obtain ⟨value, rfl, unit⟩ := other
      simp only [parseByteRange, if_neg unit]

theorem parseByteRange_refused (named : trim value = text "bytes=" ++ spec) (plain : PlainSpec spec)
    (refused : Refused fileLen spec) : parseByteRange (some (some value)) fileLen = .error () := by
  by_cases early : fileLen = 0 ∨ ',' ∈ spec
  · simp only [parseByteRange, named, List.prefix_append, if_true, List.drop_left, if_pos early]
  · rw [Refused, ← or_assoc] at refused
    cases refused.resolve_left early with
    | inl unread => exact parseByteRange_unread named plain unread
    | inr unsatisfiable =>
        obtain ⟨request, reads, none⟩ := unsatisfiable
        rw [parseByteRange_reads named plain (not_or.mp early).1 reads, if_pos none]

/-- What is not refused is answered by the range of the request. -/
theorem parseByteRange_granted (named : trim value = text "bytes=" ++ spec) (plain : PlainSpec spec)
    (granted : ¬ Refused fileLen spec) : fileLen ≠ 0 ∧ (∃ request, RangeRequest.Reads spec request) ∧
      ∀ request, RangeRequest.Reads spec request → ¬ request.Unsatisfiable fileLen ∧
        parseByteRange (some (some value)) fileLen = .ok (some (request.range fileLen)) := by
  simp only [Refused, not_or, not_exists, not_and] at granted
  obtain ⟨nonempty, -, read, satisfiable⟩ := granted
  refine ⟨nonempty, not_forall_not.mp read, ?_⟩
  intro request reads
  have met := satisfiable request reads
  exact ⟨met, by rw [parseByteRange_reads named plain nonempty reads, if_neg met]⟩

/-- A header is of one of three kinds. -/
theorem header_cases (rangeHeader : Option (Option Text)) :
    Unranged rangeHeader ∨ rangeHeader = some none ∨ ∃ spec, BytesSpec rangeHeader spec := by
  cases rangeHeader with
  | none => exact Or.inl (Or.inl rfl)
  | some header =>
      cases header with
      | none => exact Or.inr (Or.inl rfl)
      | some value =>
          by_cases named : text "bytes=" <+: trim value
          · obtain ⟨spec, whole⟩ := named
            exact Or.inr (Or.inr ⟨spec, value, rfl, whole.symm⟩)
          · exact Or.inl (Or.inr ⟨value, rfl, named⟩)

theorem parseByteRange_cases (rangeHeader : Option (Option Text))
    (plain : ∀ spec, BytesSpec rangeHeader spec → PlainSpec spec) :
    (Unranged rangeHeader ∧ parseByteRange rangeHeader fileLen = .ok none) ∨
      ((rangeHeader = some none ∨ ∃ spec, BytesSpec rangeHeader spec ∧ Refused fileLen spec) ∧
        parseByteRange rangeHeader fileLen = .error ()) ∨
      ∃ spec, BytesSpec rangeHeader spec ∧ fileLen ≠ 0 ∧ (∃ request, RangeRequest.Reads spec request) ∧
        ∀ request, RangeRequest.Reads spec request → ¬ request.Unsatisfiable fileLen ∧
          parseByteRange rangeHeader fileLen = .ok (some (request.range fileLen)) := by
  obtain unranged | unreadable | ⟨spec, named⟩ := header_cases rangeHeader
  · exact Or.inl ⟨unranged, parseByteRange_unranged unranged⟩
  · subst unreadable
    exact Or.inr (Or.inl ⟨Or.inl rfl, rfl⟩)
  · have clean := plain spec named
    obtain ⟨value, rfl, whole⟩ := named
    by_cases refused : Refused fileLen spec
    · exact Or.inr (Or.inl ⟨Or.inr ⟨spec, ⟨value, rfl, whole⟩, refused⟩,
        parseByteRange_refused whole clean refused⟩)
    · exact Or.inr (Or.inr ⟨spec, ⟨value, rfl, whole⟩, parseByteRange_granted whole clean refused⟩)

end

/-- Two plain numbers make a plain request. -/
theorem plainSpec_between {first last : Text} (plain : PlainNumber 64 first) (plain' : PlainNumber 64 last)
    (free : '-' ∉ first) (free' : '-' ∉ last) : PlainSpec (first ++ '-' :: last) := by
  intro front back whole
  obtain ⟨rfl, -, rfl⟩ := (List.append_cons_inj_of_notMem free free').mp whole
  exact ⟨plain, plain'⟩

/-- A partial response names the positions that it holds. -/
structure ServesExactly (content : Bytes) (range : ByteRange) (response : FileResponse) : Prop where
  status : response.status = 206
  body : ∃ bytes, response.body = .ok bytes ∧ bytes = (content.take (range.last + 1)).drop range.first ∧
    bytes.length = range.len
  contentLength : response.headers.lookup (text "content-length") = some (decimal range.len)
  contentRange : response.headers.lookup (text "content-range") =
    some (text "bytes " ++ decimal range.first ++ text "-" ++ decimal range.last ++ text "/" ++
      decimal content.length)

theorem serveLocalFile_range (other : OtherMetadata) {disk : Tree} {localPath : PathBuf} (relativePath : Text)
    {rangeHeader : Option (Option Text)} {location : Location} {content : Bytes} {time : Int} {range : ByteRange}
    (found : disk.resolve true localPath = .ok location) (there : disk.node location = some (.file content time))
    (parsed : parseByteRange rangeHeader content.length = .ok (some range)) (ordered : range.first ≤ range.last)
    (inside : range.last < content.length) :
    ∃ response, serveLocalFile other disk localPath relativePath rangeHeader = .ok response ∧
      ServesExactly content range response := by
  have opened : openLocalFile other disk localPath = .ok ⟨content.length, some time, .ok content⟩ := by
    simp only [openLocalFile, found, there]
  unfold serveLocalFile
  rw [opened]
  simp only [parsed]
  refine ⟨_, rfl, ?_⟩
  have len : range.len = range.last + 1 - range.first := by
    rw [ByteRange.len]
    omega
  constructor
  · rfl
  · refine ⟨(content.drop range.first).take range.len, rfl, ?_, ?_⟩
    · rw [List.drop_take, len]
    · rw [List.length_take, List.length_drop, len]
      omega
  · cases lastModifiedMillis (some time) <;> rfl
  · cases lastModifiedMillis (some time) <;> rfl

/-- A byte range is refused for the reasons of the header and of the file only, and otherwise it holds the positions
that are asked for. -/
theorem parseByteRange_exact (rangeHeader : Option (Option Text)) (fileLen : Nat) (small : fileLen < 2 ^ 64)
    (plain : ∀ spec, BytesSpec rangeHeader spec → PlainSpec spec) :
    (parseByteRange rangeHeader fileLen = .ok none ↔ Unranged rangeHeader) ∧
    (parseByteRange rangeHeader fileLen = .error () ↔
      rangeHeader = some none ∨ ∃ spec, BytesSpec rangeHeader spec ∧ Refused fileLen spec) ∧
    ∀ range, parseByteRange rangeHeader fileLen = .ok (some range) →
      range.first ≤ range.last ∧ range.last < fileLen ∧ range.len < 2 ^ 64 ∧
      (∃ spec, BytesSpec rangeHeader spec ∧ (∃ request, RangeRequest.Reads spec request) ∧
        ∀ request, RangeRequest.Reads spec request → ∀ position,
          range.first ≤ position ∧ position ≤ range.last ↔
            position < fileLen ∧ request.Covers fileLen position) ∧
      ∀ other disk localPath relativePath location content time, disk.resolve true localPath = .ok location →
        disk.node location = some (.file content time) → content.length = fileLen →
        ∃ response, serveLocalFile other disk localPath relativePath rangeHeader = .ok response ∧
          ServesExactly content range response := by
  have kinds := @parseByteRange_cases fileLen rangeHeader plain
  refine ⟨⟨?_, parseByteRange_unranged⟩, ⟨?_, ?_⟩, ?_⟩
  · intro parsed
    obtain ⟨unranged, -⟩ | ⟨-, error⟩ | ⟨spec, -, -, ⟨request, reads⟩, answer⟩ := kinds
    · exact unranged
    · rw [parsed] at error
      cases error
    · rw [(answer request reads).2] at parsed
      cases parsed
  · intro parsed
    obtain ⟨-, none⟩ | ⟨reason, -⟩ | ⟨spec, -, -, ⟨request, reads⟩, answer⟩ := kinds
    · rw [parsed] at none
      cases none
    · exact reason
    · rw [(answer request reads).2] at parsed
      cases parsed
  · intro reason
    cases reason with
    | inl unreadable =>
        rw [unreadable]
        rfl
    | inr refused =>
        obtain ⟨spec, named, refused⟩ := refused
        have clean := plain spec named
        obtain ⟨value, rfl, whole⟩ := named
        exact parseByteRange_refused whole clean refused
  · intro range parsed
    obtain ⟨-, none⟩ | ⟨-, error⟩ | ⟨spec, named, nonempty, ⟨request, reads⟩, answer⟩ := kinds
    · rw [parsed] at none
      cases none
    · rw [parsed] at error
      cases error
    · have same : ∀ request, RangeRequest.Reads spec request →
          ¬ request.Unsatisfiable fileLen ∧ range = request.range fileLen := by
        intro request reads
        obtain ⟨met, granted⟩ := answer request reads
        rw [parsed] at granted
        cases granted
        exact ⟨met, rfl⟩
      obtain ⟨met, equal⟩ := same request reads
      obtain ⟨ordered, inside, -⟩ := RangeRequest.range_exact nonempty met
      rw [← equal] at ordered inside
      refine ⟨ordered, inside, ?_, ⟨spec, named, ⟨request, reads⟩, ?_⟩, ?_⟩
      · rw [ByteRange.len]
        omega
      · intro request reads
        obtain ⟨met, rfl⟩ := same request reads
        exact (RangeRequest.range_exact nonempty met).2.2
      · intro other disk localPath relativePath location content time found there length
        subst length
        exact serveLocalFile_range other relativePath found there parsed ordered inside

/-- Four bytes of a file of ten. -/
theorem parseByteRange_exact_ten :
    ¬ Unranged (some (some (text "bytes=2-5"))) ∧ (⟨2, 5⟩ : ByteRange).last < 10 ∧ (⟨2, 5⟩ : ByteRange).len < 2 ^ 64 := by
  have parsed : parseByteRange (some (some (text "bytes=2-5"))) 10 = .ok (some ⟨2, 5⟩) := by decide +kernel
  have plain : ∀ spec, BytesSpec (some (some (text "bytes=2-5"))) spec → PlainSpec spec := by
    intro spec ⟨value, same, whole⟩
    cases same
    have cut : trim (text "bytes=2-5") = text "bytes=" ++ (text "2" ++ '-' :: text "5") := by decide +kernel
    rw [cut] at whole
    rw [← List.append_cancel_left whole]
    have small : ∀ {t : Text}, t.head? ≠ some '+' → numeral t < 10 → PlainNumber 64 t := by
      intro t unsigned small
      refine ⟨?_, fun _ => by omega⟩
      intro digits signed
      rw [signed] at unsigned
      exact absurd rfl unsigned
    exact plainSpec_between (small (by decide +kernel) (by decide +kernel)) (small (by decide +kernel)
      (by decide +kernel)) (by decide +kernel) (by decide +kernel)
  obtain ⟨unranged, -, ranged⟩ := parseByteRange_exact (some (some (text "bytes=2-5"))) 10 (by decide) plain
  obtain ⟨-, inside, fits, -⟩ := ranged ⟨2, 5⟩ parsed
  refine ⟨fun none => ?_, inside, fits⟩
  rw [unranged.mpr none] at parsed
  cases parsed

end AeordbSync

import AeordbSync.Library.JsonText
import AeordbSync.Push.Batching
import AeordbSync.Push.Upload

namespace AeordbSync
open Characters Json

def saturatingMul (a b : Nat) : Nat := min (a * b) maxU64

namespace Saturating

def estimatedBlobCommitFileBytes (file : PendingPushFile) (config : BlobConfig) : Nat :=
  let chunks := estimatedChunkCount file.fileSize config.chunkSize
  let chunkArrayBytes := if chunks = 0 then 2 else saturatingAdd (saturatingMul chunks 67) 2
  let pathBytes := byteLength (quoted file.remotePath)
  let hashBytes := saturatingAdd (byteLength file.contentHash) 2
  let contentTypeBytes := match file.contentType with
    | some contentType => byteLength (quoted contentType)
    | none => 0
  saturatingAdd (saturatingAdd (saturatingAdd (saturatingAdd (saturatingAdd 160 pathBytes) chunkArrayBytes) hashBytes)
    (byteLength (decimal file.fileSize))) contentTypeBytes

def estimatedBlobCommitBodyBytes (files : List PendingPushFile) (config : BlobConfig) : Nat :=
  files.foldl (fun bytes file => saturatingAdd bytes (estimatedBlobCommitFileBytes file config))
    (byteLength (text "\x7b\"files\":[]\x7d"))

end Saturating

/-- A field that is left out when it is not given. -/
def optionalField (key : String) (value : Option Json) : Fields := value.toList.map fun value => ⟨text key, value⟩

/-- The fields are written in the order of their names. -/
def CommitFile.json (file : CommitFile) : Json :=
  .object ([⟨text "chunks", .array (file.chunks.map .string)⟩] ++
    optionalField "content_hash" (file.contentHash.map .string) ++
    optionalField "content_type" (file.contentType.map .string) ++ [⟨text "path", .string file.path⟩] ++
    optionalField "size" (file.size.map fun size : Nat => .number size))

/-- The body of a commit request. -/
def commitBody (files : List CommitFile) : Json := .object [⟨text "files", .array (files.map CommitFile.json)⟩]

/-- A digest is written with 64 hexadecimal digits. -/
def IsHexHash (hash : Text) : Prop := hash.length = 64 ∧ hash.all (fun c => c ∈ text "0123456789abcdef") = true

/-- The plan gives a file as many chunks as its size needs. -/
structure PlannedCommit (config : BlobConfig) (file : PendingPushFile) (commit : CommitFile) : Prop where
  content : IsHexHash file.contentHash
  whole : ∃ hashes : List Text, commit = commitFileOf file hashes ∧ (∀ hash ∈ hashes, IsHexHash hash) ∧
    hashes.length = (file.fileSize + max config.chunkSize 1 - 1) / max config.chunkSize 1

section

theorem IsHexHash.plain {hash : Text} (hex : IsHexHash hash) : ∀ c ∈ hash, escapeChar c = [c] ∧ c.utf8Size = 1 := by
  have digits : (text "0123456789abcdef").all
      (fun c => decide (escapeChar c = [c]) && decide (c.utf8Size = 1)) = true := by decide +kernel
  intro c inside
  have digit := List.all_eq_true.mp digits c (of_decide_eq_true (List.all_eq_true.mp hex.2 c inside))
  simpa using digit

/-- A digest is written between two quotes. -/
theorem IsHexHash.quoted {hash : Text} (hex : IsHexHash hash) : byteLength (quoted hash) = 66 := by
  have plain : hash.flatMap escapeChar = hash := by
    rw [List.flatMap_congr fun c inside => (hex.plain c inside).1]
    simp
  have quote : ('"' : Char).utf8Size = 1 := by decide
  rw [Json.quoted, plain, byteLength_cons, byteLength_append, byteLength_ascii fun c inside => (hex.plain c inside).2,
    byteLength_cons, byteLength_nil, quote, hex.1]

theorem byteLength_escapeChar (c : Char) : byteLength (escapeChar c) = jsonCharLength c := by
  have one : ∀ n < 16, (nibble n).utf8Size = 1 := by decide +kernel
  have slash : ('\\' : Char).utf8Size = 1 := by decide
  have quote : ('"' : Char).utf8Size = 1 := by decide
  unfold escapeChar jsonCharLength
  simp only
  by_cases quoted : c = '"'
  · rw [if_pos quoted, if_pos (Or.inl quoted)]
    rfl
  · by_cases escaped : c = '\\'
    · rw [if_neg quoted, if_pos escaped, if_pos (Or.inr escaped)]
      rfl
    · rw [if_neg quoted, if_neg escaped, if_neg (not_or.mpr ⟨quoted, escaped⟩)]
      have letter : ('b' : Char).utf8Size = 1 ∧ ('t' : Char).utf8Size = 1 ∧ ('n' : Char).utf8Size = 1 ∧
          ('f' : Char).utf8Size = 1 ∧ ('r' : Char).utf8Size = 1 ∧ ('u' : Char).utf8Size = 1 ∧
          ('0' : Char).utf8Size = 1 := by decide
      by_cases control : c.toNat < 32
      · have first := one (c.toNat / 16) (by omega)
        have second := one (c.toNat % 16) (by omega)
        by_cases short : c.toNat = 8 ∨ c.toNat = 9 ∨ c.toNat = 10 ∨ c.toNat = 12 ∨ c.toNat = 13
        · rw [if_pos short]
          obtain code | code | code | code | code := short <;> simp [code, slash, letter]
        · rw [if_neg short, if_pos control]
          simp only [not_or] at short
          simp [short, control, slash, letter, first, second]
      · have high : c.toNat ≠ 8 ∧ c.toNat ≠ 9 ∧ c.toNat ≠ 10 ∧ c.toNat ≠ 12 ∧ c.toNat ≠ 13 := by omega
        simp [high, control]

/-- The length of a text between quotes, with what is escaped in it. -/
theorem byteLength_quoted (t : Text) : byteLength (quoted t) = jsonStringLength t := by
  have quote : ('"' : Char).utf8Size = 1 := by decide
  rw [quoted, byteLength_cons, byteLength_append, byteLength_flatMap, byteLength_cons, byteLength_nil, quote,
    jsonStringLength, List.map_congr_left fun c _ => byteLength_escapeChar c]
  omega

theorem byteLength_decimal (n : Nat) : byteLength (decimal n) = (decimal n).length := by
  apply byteLength_ascii
  intro c inside
  have digit : c.isDigit = true := Nat.isDigit_of_mem_toDigits (by decide) (by decide) inside
  have bound : c.toNat ≤ '9'.toNat := (Char.isDigit_iff_toNat.mp digit).2
  rw [Char.utf8Size_eq_one_iff, UInt32.le_iff_toNat_le]
  exact le_trans bound (by decide)

theorem byteLength_number (n : Nat) : byteLength (render (.number n)) = (decimal n).length := by
  have positive : ¬ (n : Int) < 0 := by omega
  rw [render, numberText, if_neg positive, Int.natAbs_natCast, byteLength_decimal]

theorem byteLength_array (items : List Json) :
    byteLength (render (.array items)) = jsonArrayLength (items.map fun item => byteLength (render item)) := by
  have parts := renderItems_map id items
  rw [List.map_id] at parts
  rw [render, byteLength_bracketed _ _ _ (by decide) (by decide), parts, jsonArrayLength, List.map_map, List.length_map,
    List.length_map]
  rfl

theorem renderFields_map (fields : Fields) :
    renderFields fields = fields.map fun field => quoted field.1 ++ ':' :: render field.2 := by
  induction fields with
  | nil => rfl
  | cons field rest ih => rw [renderFields, ih, List.map_cons]

theorem byteLength_object (fields : Fields) : byteLength (render (.object fields)) =
    jsonArrayLength (fields.map fun field => jsonStringLength field.1 + 1 + byteLength (render field.2)) := by
  have colon : (':' : Char).utf8Size = 1 := by decide
  rw [render, byteLength_bracketed _ _ _ (by decide) (by decide), renderFields_map, jsonArrayLength, List.map_map,
    List.length_map, List.length_map]
  simp [Function.comp_def, byteLength_quoted, colon, Nat.add_assoc]

/-- The names of the fields of a commit need no escape. -/
theorem jsonStringLength_names :
    jsonStringLength (text "chunks") = 8 ∧ jsonStringLength (text "content_hash") = 14 ∧
      jsonStringLength (text "content_type") = 14 ∧ jsonStringLength (text "path") = 6 ∧
      jsonStringLength (text "size") = 6 ∧ jsonStringLength (text "files") = 7 := by
  decide +kernel

theorem byteLength_commitFile (file : CommitFile) : byteLength (render file.json) = commitFileLength file := by
  obtain ⟨chunks, hash, kind, path, size, -⟩ := jsonStringLength_names
  have listed : byteLength (render (.array (file.chunks.map .string))) =
      jsonArrayLength (file.chunks.map jsonStringLength) := by
    rw [byteLength_array, List.map_map]
    simp [Function.comp_def, render, byteLength_quoted]
  have spelled : ∀ t, byteLength (render (.string t)) = jsonStringLength t := fun t => byteLength_quoted t
  have lengths : "path".length = 4 ∧ "chunks".length = 6 ∧ "content_hash".length = 12 ∧ "size".length = 4 ∧
      "content_type".length = 12 := by decide
  rw [CommitFile.json, byteLength_object, commitFileLength, jsonObjectLength]
  cases file.contentHash <;> cases file.size <;> cases file.contentType <;>
    simp only [optionalField, jsonArrayLength, Option.map_none, Option.map_some, Option.toList_none,
      Option.toList_some, List.map_nil, List.map_cons, List.append_nil, List.nil_append, List.cons_append,
      List.sum_cons, List.sum_nil, List.length_cons, List.length_nil, listed, spelled, byteLength_number, chunks, hash,
      kind, path, size, lengths] <;>
    omega

/-- The length of the body of a commit is that of its text. -/
theorem byteLength_commitBody (files : List CommitFile) :
    byteLength (render (commitBody files)) = blobCommitBodyBytes files := by
  obtain ⟨-, -, -, -, -, name⟩ := jsonStringLength_names
  have length : "files".length = 5 := by decide
  rw [commitBody, byteLength_object, blobCommitBodyBytes, jsonObjectLength, List.map_singleton, List.map_singleton,
    byteLength_array, List.map_map, name, length]
  simp [Function.comp_def, byteLength_commitFile]

theorem saturatingAdd_min (a b : Nat) : saturatingAdd (min a maxU64) (min b maxU64) = min (a + b) maxU64 := by
  unfold saturatingAdd
  generalize maxU64 = most
  omega

theorem saturatingAdd_left (a b : Nat) : saturatingAdd (min a maxU64) b = min (a + b) maxU64 := by
  unfold saturatingAdd
  generalize maxU64 = most
  omega

theorem saturatingMul_min (a b : Nat) (positive : 0 < b) : saturatingMul (min a maxU64) b = min (a * b) maxU64 := by
  unfold saturatingMul
  generalize maxU64 = most
  cases le_total a most with
  | inl small => rw [min_eq_left small]
  | inr large =>
      have grown : most ≤ most * b := Nat.le_mul_of_pos_right most positive
      have grown' : most ≤ a * b := le_trans large (Nat.le_mul_of_pos_right a positive)
      rw [min_eq_right large, min_eq_right grown, min_eq_right grown']

theorem estimatedChunkCount_saturates (byteLen chunkSize : Nat) :
    Saturating.estimatedChunkCount byteLen chunkSize = min (estimatedChunkCount byteLen chunkSize) maxU64 := by
  unfold Saturating.estimatedChunkCount estimatedChunkCount
  split
  · rfl
  · rfl

/-- The estimate of a file stops at the largest number. -/
theorem estimatedBlobCommitFileBytes_saturates (file : PendingPushFile) (config : BlobConfig) :
    Saturating.estimatedBlobCommitFileBytes file config = min (estimatedBlobCommitFileBytes file config) maxU64 := by
  have positive : maxU64 ≠ 0 := by decide
  have array : (if Saturating.estimatedChunkCount file.fileSize config.chunkSize = 0 then 2
      else saturatingAdd (saturatingMul (Saturating.estimatedChunkCount file.fileSize config.chunkSize) 67) 2) =
      min (if estimatedChunkCount file.fileSize config.chunkSize = 0 then 2
        else estimatedChunkCount file.fileSize config.chunkSize * 67 + 2) maxU64 := by
    rw [estimatedChunkCount_saturates, saturatingMul_min _ _ (by decide), saturatingAdd_left]
    by_cases none : estimatedChunkCount file.fileSize config.chunkSize = 0
    · rw [none]
      decide
    · have some : min (estimatedChunkCount file.fileSize config.chunkSize) maxU64 ≠ 0 := by
        generalize maxU64 = most at positive ⊢
        omega
      rw [if_neg none, if_neg some]
  have hash : byteLength file.contentHash = (utf8 file.contentHash).length := rfl
  unfold Saturating.estimatedBlobCommitFileBytes estimatedBlobCommitFileBytes
  simp only [array, byteLength_quoted, byteLength_decimal, hash]
  have start : ∀ a b, saturatingAdd a b = min (a + b) maxU64 := fun _ _ => rfl
  rewrite [start 160, saturatingAdd_min, start _ 2, saturatingAdd_min, saturatingAdd_left, saturatingAdd_left]
  cases file.contentType <;> rfl

theorem estimatedBlobCommitBodyBytes_saturates (files : List PendingPushFile) (config : BlobConfig) :
    Saturating.estimatedBlobCommitBodyBytes files config = min (estimatedBlobCommitBodyBytes files config) maxU64 := by
  have start : byteLength (text "\x7b\"files\":[]\x7d") = min 12 maxU64 := by decide +kernel
  rw [Saturating.estimatedBlobCommitBodyBytes, estimatedBlobCommitBodyBytes, start]
  generalize 12 = bytes
  induction files generalizing bytes with
  | nil => rfl
  | cons file rest ih =>
      rw [List.foldl_cons, estimatedBlobCommitFileBytes_saturates, saturatingAdd_min, ih, List.map_cons, List.sum_cons,
        Nat.add_assoc]

/-- The estimate of a file leaves room for a comma after it. -/
theorem commitFileLength_lt {config : BlobConfig} {file : PendingPushFile} {commit : CommitFile}
    (planned : PlannedCommit config file commit) :
    commitFileLength commit < estimatedBlobCommitFileBytes file config := by
  obtain ⟨hashes, rfl, hex, count⟩ := planned.whole
  have quoted : ∀ hash, IsHexHash hash → jsonStringLength hash = 66 := by
    intro hash hex
    rw [← byteLength_quoted]
    exact hex.quoted
  have same : hashes.map jsonStringLength = List.replicate hashes.length 66 := by
    rw [List.eq_replicate_iff, List.length_map]
    refine ⟨rfl, ?_⟩
    intro length inside
    obtain ⟨hash, present, rfl⟩ := List.mem_map.mp inside
    exact quoted hash (hex hash present)
  have chunks : hashes.length = estimatedChunkCount file.fileSize config.chunkSize := by
    rw [count, estimatedChunkCount]
    split
    next none =>
      rw [none, Nat.zero_add]
      exact Nat.div_eq_of_lt (by omega)
    next => rfl
  have content : (utf8 file.contentHash).length = 64 := by
    have plain := byteLength_ascii fun c inside => (planned.content.plain c inside).2
    exact plain.trans planned.content.1
  have lengths : "path".length = 4 ∧ "chunks".length = 6 ∧ "content_hash".length = 12 ∧ "size".length = 4 ∧
      "content_type".length = 12 := by decide
  unfold estimatedBlobCommitFileBytes commitFileLength commitFileOf
  simp only [same, jsonArrayLength, List.sum_replicate_nat, List.length_replicate, ← chunks, content]
  generalize hashes.length = k
  cases file.contentType <;>
    simp only [jsonObjectLength, jsonArrayLength, Option.map_none, Option.map_some, Option.toList_none,
      Option.toList_some, List.map_nil, List.map_cons, List.append_nil, List.nil_append, List.cons_append,
      List.sum_cons, List.sum_nil, List.length_cons, List.length_nil, quoted _ planned.content, lengths] <;>
    split <;> omega

theorem commitFileLength_sum {config : BlobConfig} {files : List PendingPushFile} {commits : List CommitFile}
    (planned : List.Forall₂ (PlannedCommit config) files commits) :
    (commits.map commitFileLength).sum + commits.length ≤
      (files.map fun file => estimatedBlobCommitFileBytes file config).sum := by
  induction planned with
  | nil => exact le_refl _
  | cons first rest ih =>
      have less := commitFileLength_lt first
      simp only [List.map_cons, List.sum_cons, List.length_cons]
      omega

/-- The body of a commit is no longer than the estimate that knows no largest number. -/
theorem byteLength_commitBody_le {config : BlobConfig} {files : List PendingPushFile} {commits : List CommitFile}
    (planned : List.Forall₂ (PlannedCommit config) files commits) :
    byteLength (render (commitBody commits)) ≤ estimatedBlobCommitBodyBytes files config := by
  have sum := commitFileLength_sum planned
  have length : "files".length = 5 := by decide
  rw [byteLength_commitBody, blobCommitBodyBytes, jsonObjectLength, estimatedBlobCommitBodyBytes]
  simp only [jsonArrayLength, List.map_cons, List.map_nil, List.sum_cons, List.sum_nil, List.length_cons,
    List.length_nil, List.length_map, length]
  omega

end

/-- The estimate is at least the length of the body of the commit, as far as that is a number of the machine. -/
theorem estimate_covers (config : BlobConfig) (files : List PendingPushFile) (commits : List CommitFile)
    (planned : List.Forall₂ (PlannedCommit config) files commits) :
    (byteLength (render (commitBody commits)) ≤ maxU64 →
      byteLength (render (commitBody commits)) ≤ Saturating.estimatedBlobCommitBodyBytes files config) ∧
    (Saturating.estimatedBlobCommitBodyBytes files config ≤ blobCommitSafeRequestBodyBytes →
      byteLength (render (commitBody commits)) ≤ blobCommitSafeRequestBodyBytes) := by
  have covered := byteLength_commitBody_le planned
  have safe : blobCommitSafeRequestBodyBytes < maxU64 := by decide
  rw [estimatedBlobCommitBodyBytes_saturates]
  constructor
  · intro fits
    exact le_min covered fits
  · intro small
    cases min_le_iff.mp small with
    | inl exact' => exact le_trans covered exact'
    | inr most => exact absurd most (not_le_of_gt safe)

/-- A file of one chunk, with a name that is escaped. -/
theorem estimate_covers_quote :
    let hash := List.replicate 64 'a'
    let file : PendingPushFile := ⟨[], text "/docs/\"a\"", hash, 4, 0, some (text "text/plain")⟩
    byteLength (render (commitBody [commitFileOf file [hash]])) ≤
      Saturating.estimatedBlobCommitBodyBytes [file] ⟨text "plain", 4, []⟩ := by
  have hex : IsHexHash (List.replicate 64 'a') := by
    constructor
    · rfl
    · decide +kernel
  have planned : PlannedCommit ⟨text "plain", 4, []⟩
      ⟨[], text "/docs/\"a\"", List.replicate 64 'a', 4, 0, some (text "text/plain")⟩
      (commitFileOf ⟨[], text "/docs/\"a\"", List.replicate 64 'a', 4, 0, some (text "text/plain")⟩
        [List.replicate 64 'a']) :=
    ⟨hex, [List.replicate 64 'a'], rfl, by simpa using hex, rfl⟩
  exact (estimate_covers _ _ _ (List.Forall₂.cons planned List.Forall₂.nil)).1 (by decide +kernel)

end AeordbSync

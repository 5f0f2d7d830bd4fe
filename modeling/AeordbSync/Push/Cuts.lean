import AeordbSync.Pull.Plan
import AeordbSync.Push.Plans
import AeordbSync.Reference

namespace AeordbSync
open Characters OsPath FileSystem Effect Firsts

variable {ρ : Type} {env : Env ρ} {config : BlobConfig} {disk : Tree}

/-- A reference selects a part of the content, which has its hash. -/
theorem mem_chunkRefsFrom {path : PathBuf} {pieces : List Bytes} {front : Bytes} {ref : PendingChunkRef}
    (inside : ref ∈ chunkRefsFrom env config path front.length pieces) :
    ref.localPath = path ∧ ref.offset + ref.len ≤ (front ++ pieces.flatten).length ∧
      chunkHash env.digest config.chunkHashPrefix
        (((front ++ pieces.flatten).drop ref.offset).take ref.len) = ref.hash := by
  induction pieces generalizing front with
  | nil => cases inside
  | cons piece rest ih =>
      rw [chunkRefsFrom, List.mem_cons] at inside
      rcases inside with rfl | later
      · refine ⟨rfl, ?_, ?_⟩
        · simp only [List.flatten_cons, List.length_append]
          omega
        · rw [List.drop_left, List.flatten_cons, List.take_left]
      · rw [← List.length_append] at later
        have found := ih later
        rwa [List.append_assoc] at found

/-- A plan describes its files: their commits are in order and complete, the chunks of the commits are those that
can be uploaded, each once, and each upload selects a part of a file that has its hash. -/
structure PlanDescribes (env : Env ρ) (config : BlobConfig) (disk : Tree) (files : List PendingPushFile)
    (plan : PushBatchPlan) : Prop where
  commits : List.Forall₂ (fun file commit => commit.path = file.remotePath ∧ commit.size = some file.fileSize ∧
    commit.contentHash = some file.contentHash ∧ ∃ pieces : List Bytes, disk.read file.localPath = .ok pieces.flatten ∧
      commit.chunks = pieces.map (chunkHash env.digest config.chunkHashPrefix) ∧
      pieces.flatten.length = file.fileSize ∧ env.digest pieces.flatten = file.contentHash) files plan.commitFiles
  distinct : plan.uniqueHashes.Nodup
  hashes : ∀ hash, hash ∈ plan.uniqueHashes ↔ ∃ commit ∈ plan.commitFiles, hash ∈ commit.chunks
  keys : plan.uploadChunks.map PendingChunkRef.hash = plan.uniqueHashes
  uploads : ∀ ref ∈ plan.uploadChunks, ∃ file ∈ files, ∃ content, ref.localPath = file.localPath ∧
    disk.read file.localPath = .ok content ∧ ref.offset + ref.len ≤ content.length ∧
    chunkHash env.digest config.chunkHashPrefix ((content.drop ref.offset).take ref.len) = ref.hash

/-- Files that were planned, each as it is described. -/
theorem plannedFiles_described {files : List PendingPushFile} {outcomes : List PlanOutcome}
    {planned : List (PendingPushFile × PlannedFileChunks)} (described : OutcomesOf env config disk files outcomes)
    (succeeded : plannedFiles outcomes = .ok planned) :
    planned.map Prod.fst = files ∧ ∀ file ∈ planned, ∃ pieces, Described env config disk file.1 file.2 pieces := by
  induction outcomes generalizing files planned with
  | nil =>
      cases succeeded
      exact ⟨described.1, fun file inside => by cases inside⟩
  | cons outcome rest ih =>
      obtain ⟨file, error | chunks⟩ := outcome
      · cases succeeded
      · obtain ⟨rfl, each⟩ := described
        rw [plannedFiles] at succeeded
        cases others : plannedFiles rest with
        | error message =>
            rw [others] at succeeded
            cases succeeded
        | ok more =>
            rw [others] at succeeded
            cases succeeded
            obtain ⟨names, shown⟩ := ih ⟨rfl, fun outcome inside => each outcome (.tail _ inside)⟩ others
            refine ⟨by rw [List.map_cons, names, List.map_cons], fun other inside => ?_⟩
            rcases List.mem_cons.mp inside with rfl | later
            · exact each _ (.head _) chunks rfl
            · exact shown other later

theorem Described.hashes_eq {file : PendingPushFile} {planned : PlannedFileChunks} {pieces : List Bytes}
    (described : Described env config disk file planned pieces) :
    planned.chunkRefs.map PendingChunkRef.hash = planned.chunkHashes := by
  rw [described.refs, described.hashes, chunkRefsFrom_hashes]

theorem batchPlan_describes {planned : List (PendingPushFile × PlannedFileChunks)}
    (described : ∀ file ∈ planned, ∃ pieces, Described env config disk file.1 file.2 pieces) :
    PlanDescribes env config disk (planned.map Prod.fst) (batchPlan planned) where
  commits := by
    rw [batchPlan, List.forall₂_map_left_iff, List.forall₂_map_right_iff, List.forall₂_same]
    intro file inside
    obtain ⟨pieces, shown⟩ := described file inside
    exact ⟨rfl, rfl, rfl, pieces, shown.read, shown.hashes, shown.size, shown.hash⟩
  distinct := nodup_foldl List.nodup_nil
  hashes := by
    intro hash
    have all : hash ∈ (batchPlan planned).uniqueHashes ↔ hash ∈ (chunkRefsOf planned).map PendingChunkRef.hash := by
      show hash ∈ (firsts PendingChunkRef.hash (chunkRefsOf planned)).map PendingChunkRef.hash ↔ _
      rw [firsts, keys_foldl]
      simp
    rw [all, chunkRefsOf, List.map_flatMap, List.mem_flatMap]
    constructor
    · rintro ⟨file, inside, among⟩
      obtain ⟨pieces, shown⟩ := described file inside
      rw [shown.hashes_eq] at among
      exact ⟨_, List.mem_map_of_mem inside, among⟩
    · rintro ⟨commit, listed, among⟩
      obtain ⟨file, inside, rfl⟩ := List.mem_map.mp listed
      obtain ⟨pieces, shown⟩ := described file inside
      refine ⟨file, inside, ?_⟩
      rw [shown.hashes_eq]
      exact among
  keys := rfl
  uploads := by
    intro ref kept
    have listed : ref ∈ chunkRefsOf planned := (mem_foldl kept).resolve_left (List.not_mem_nil)
    obtain ⟨file, inside, among⟩ := List.mem_flatMap.mp listed
    obtain ⟨pieces, shown⟩ := described file inside
    rw [shown.refs] at among
    obtain ⟨path, within, hash⟩ := @mem_chunkRefsFrom _ env config _ pieces [] ref among
    exact ⟨file.1, List.mem_map_of_mem inside, pieces.flatten, path, shown.read, within, hash⟩

/-- Whatever the reads return, a plan that succeeds describes its files. -/
theorem planPushBatch_describes {files : List PendingPushFile} {plan : PushBatchPlan} {w next : World ρ}
    (succeeded : planPushBatch env files config w = (.ok (.ok plan), next)) :
    PlanDescribes env config w.disk files plan := by
  have outcome : ∃ outcomes, OutcomesOf env config w.disk files outcomes ∧
      (.ok plan : Except Text PushBatchPlan) =
        planBatchOf (pushWorkerCount env.parallelism files.length) outcomes := by
    have triple := @planPushBatch_outcomes ρ env config w (fun _ _ => True) files
    have reached := triple.returned (Unmoved.refl w) (congrArg Prod.fst succeeded)
    exact reached.2
  obtain ⟨outcomes, described, equal⟩ := outcome
  rw [planBatchOf_eq] at equal
  cases planned : plannedFiles outcomes with
  | error message =>
      rw [planned] at equal
      cases equal
  | ok chunks =>
      rw [planned] at equal
      cases equal
      obtain ⟨rfl, shown⟩ := plannedFiles_described described planned
      exact batchPlan_describes shown

def pendingFile (name : String) (content : Bytes) : PendingPushFile where
  localPath := ofText (osText (text "/home/" ++ text name))
  remotePath := text "/docs/" ++ text name
  contentHash := plainDigest content
  fileSize := content.length
  modifiedAt := 1
  contentType := none

def sharedDisk : Tree := homeTree [("a", .file [65, 66] 1), ("b", .file [65, 67] 1)]

/-- Two files of two chunks each, one of which they share. -/
theorem planPushBatch_describes_shared : ∃ plan next,
    planPushBatch shelfEnv [pendingFile "a" [65, 66], pendingFile "b" [65, 67]] plainConfig
        (startWorld sharedDisk [] (Shelf.holding [])) = (.ok (.ok plan), next) ∧
      plan.uniqueHashes = [[65], [66], [67]].map plainDigest ∧
      PlanDescribes shelfEnv plainConfig sharedDisk [pendingFile "a" [65, 66], pendingFile "b" [65, 67]] plan := by
  have planned : ∃ plan next,
      planPushBatch shelfEnv [pendingFile "a" [65, 66], pendingFile "b" [65, 67]] plainConfig
          (startWorld sharedDisk [] (Shelf.holding [])) = (.ok (.ok plan), next) ∧
        plan.uniqueHashes = [[65], [66], [67]].map plainDigest := ⟨_, _, rfl, by decide⟩
  obtain ⟨plan, next, succeeded, unique⟩ := planned
  exact ⟨plan, next, succeeded, unique, planPushBatch_describes succeeded⟩

/-- What a read returns: at least one byte before the end of the file, and no more than was asked for. -/
def readSome (reads : Nat → Nat) (number requested : Nat) (rest : Bytes) : Bytes :=
  rest.take (min (max (reads number) 1) requested)

theorem readSome_eq_nil {reads : Nat → Nat} {number requested : Nat} {rest : Bytes} (room : 0 < requested)
    (ended : readSome reads number requested rest = []) : rest = [] := by
  rcases List.take_eq_nil_iff.mp ended with none | empty
  · omega
  · exact empty

theorem readSome_append (reads : Nat → Nat) (number requested : Nat) (rest : Bytes) :
    readSome reads number requested rest ++ rest.drop (readSome reads number requested rest).length = rest := by
  unfold readSome
  rw [List.length_take]
  rcases Nat.le_total (min (max (reads number) 1) requested) rest.length with short | long
  · rw [Nat.min_eq_left short, List.take_append_drop]
  · rw [Nat.min_eq_right long, List.take_of_length_le long, List.drop_length, List.append_nil]

/-- The loop of `planFileChunks` takes every read as a chunk. -/
def cutReads (reads : Nat → Nat) (chunkSize : Nat) (number : Nat) (rest : Bytes) : List Bytes :=
  if readSome reads number chunkSize rest = [] then []
  else readSome reads number chunkSize rest ::
    cutReads reads chunkSize (number + 1) (rest.drop (readSome reads number chunkSize rest).length)
termination_by rest.length
decreasing_by
  have whole := congrArg List.length (readSome_append reads number chunkSize rest)
  have some := List.length_pos_iff.mpr ‹¬ readSome reads number chunkSize rest = []›
  rw [List.length_append] at whole
  omega

/-- The inner loop of `hashLocalFileChunks` reads until the buffer is full or the file ends. -/
def fillBuffer (reads : Nat → Nat) (number room : Nat) (rest : Bytes) : Bytes × Nat :=
  if room = 0 then ([], number)
  else if readSome reads number room rest = [] then ([], number + 1)
  else
    let piece := readSome reads number room rest
    let later := fillBuffer reads (number + 1) (room - piece.length) (rest.drop piece.length)
    (piece ++ later.1, later.2)
termination_by room
decreasing_by
  have some := List.length_pos_iff.mpr ‹¬ readSome reads number room rest = []›
  omega

theorem fillBuffer_eq (reads : Nat → Nat) (number room : Nat) (rest : Bytes) :
    (fillBuffer reads number room rest).1 = rest.take room := by
  induction room using Nat.strong_induction_on generalizing number rest with
  | _ room ih =>
      rw [fillBuffer]
      split
      next none =>
        rw [none]
        rfl
      next some =>
        split
        next ended =>
          rw [readSome_eq_nil (Nat.pos_of_ne_zero some) ended, List.take_nil]
        next read =>
          have filled := List.length_pos_iff.mpr read
          simp only
          rw [ih _ (by omega)]
          have fits : (readSome reads number room rest).length ≤ room := by
            rw [readSome, List.length_take]
            omega
          conv => rhs; rw [← readSome_append reads number room rest]
          rw [List.take_append, List.take_of_length_le fits]

/-- The outer loop stops after a buffer that was not filled. -/
def fillReads (reads : Nat → Nat) (chunkSize : Nat) (number : Nat) (rest : Bytes) : List Bytes :=
  if (fillBuffer reads number chunkSize rest).1 = [] then []
  else if (fillBuffer reads number chunkSize rest).1.length < chunkSize then
    [(fillBuffer reads number chunkSize rest).1]
  else (fillBuffer reads number chunkSize rest).1 ::
    fillReads reads chunkSize (fillBuffer reads number chunkSize rest).2
      (rest.drop (fillBuffer reads number chunkSize rest).1.length)
termination_by rest.length
decreasing_by
  have some := List.length_pos_iff.mpr ‹¬ (fillBuffer reads number chunkSize rest).1 = []›
  rw [fillBuffer_eq, List.length_take] at some ⊢
  rw [List.length_drop]
  omega

/-- A content cut at the multiples of a size. -/
theorem chunksOf_cut {size : Nat} (positive : 0 < size) (content : Bytes) :
    chunksOf size content = if content = [] then [] else content.take size :: chunksOf size (content.drop size) := by
  have general : ∀ current : Bytes, current.length < size → ∀ rest : Bytes,
      chunksFrom size current rest = if current ++ rest = [] then []
        else (current ++ rest).take size :: chunksOf size ((current ++ rest).drop size) := by
    intro current room rest
    induction rest generalizing current with
    | nil =>
        rw [chunksFrom, List.append_nil]
        cases current with
        | nil => rfl
        | cons b more =>
            rw [List.take_of_length_le (Nat.le_of_lt room), List.drop_of_length_le (Nat.le_of_lt room)]
            rfl
    | cons b more ih =>
        rw [chunksFrom, if_neg (List.append_ne_nil_of_right_ne_nil _ (List.cons_ne_nil _ _))]
        have shifted : current ++ b :: more = (current ++ [b]) ++ more := by
          rw [List.append_assoc, List.singleton_append]
        split
        next full =>
          have length : (current ++ [b]).length = size := by
            rw [List.length_append, List.length_singleton, full]
          rw [shifted, List.take_left' length, List.drop_left' length]
          rfl
        next space =>
          rw [ih (current ++ [b]) (by rw [List.length_append, List.length_singleton]; omega), ← shifted,
            if_neg (List.append_ne_nil_of_right_ne_nil _ (List.cons_ne_nil _ _))]
  exact general [] positive content

/-- However short the reads are, the pull cuts at the multiples of the chunk size. -/
theorem fillReads_eq (reads : Nat → Nat) {chunkSize : Nat} (positive : 0 < chunkSize) (number : Nat) (rest : Bytes) :
    fillReads reads chunkSize number rest = chunksOf chunkSize rest := by
  induction length : rest.length using Nat.strong_induction_on generalizing number rest with
  | _ n ih =>
      rw [fillReads, chunksOf_cut positive, fillBuffer_eq]
      by_cases empty : rest = []
      · rw [empty, List.take_nil, if_pos rfl, if_pos rfl]
      · have taken : rest.take chunkSize ≠ [] := by
          rw [ne_eq, List.take_eq_nil_iff]
          rintro (none | nothing)
          · omega
          · exact empty nothing
        have some := List.length_pos_iff.mpr empty
        rw [if_neg taken, if_neg empty, List.length_take]
        split
        next short =>
          rw [List.drop_of_length_le (by omega)]
          rfl
        next long =>
          rw [Nat.min_eq_left (by omega)]
          congr 1
          apply ih (rest.drop chunkSize).length _ _ _ rfl
          rw [List.length_drop]
          omega

theorem cutReads_flatten (reads : Nat → Nat) {chunkSize : Nat} (positive : 0 < chunkSize) (number : Nat)
    (rest : Bytes) : (cutReads reads chunkSize number rest).flatten = rest := by
  induction length : rest.length using Nat.strong_induction_on generalizing number rest with
  | _ n ih =>
      rw [cutReads]
      split
      next ended => exact (readSome_eq_nil positive ended).symm
      next read =>
        have some := List.length_pos_iff.mpr read
        have whole := readSome_append reads number chunkSize rest
        have shorter : (rest.drop (readSome reads number chunkSize rest).length).length < n := by
          have lengths := congrArg List.length whole
          rw [List.length_append] at lengths
          omega
        rw [List.flatten_cons, ih _ shorter _ _ rfl, whole]

/-- A read that is asked for a chunk returns it, or what is left of the file. -/
def FullReads (reads : Nat → Nat) (chunkSize : Nat) (content : Bytes) : Prop :=
  ∀ k, k * chunkSize < content.length → min chunkSize (content.length - k * chunkSize) ≤ max (reads k) 1

theorem fullReads_cons {reads : Nat → Nat} {chunkSize : Nat} {content : Bytes} (some : 0 < content.length)
    (long : chunkSize ≤ content.length) :
    FullReads reads chunkSize content ↔ min chunkSize content.length ≤ max (reads 0) 1 ∧
      FullReads (fun k => reads (k + 1)) chunkSize (content.drop chunkSize) := by
  unfold FullReads
  rw [List.length_drop]
  constructor
  · intro full
    refine ⟨by simpa using full 0 (by omega), fun k inside => ?_⟩
    have next := full (k + 1) (by rw [Nat.succ_mul]; omega)
    rwa [Nat.succ_mul, Nat.add_comm, ← Nat.sub_sub] at next
  · rintro ⟨first, later⟩ k inside
    cases k with
    | zero => simpa using first
    | succ k =>
        rw [Nat.succ_mul] at inside
        have next := later k (by omega)
        rwa [Nat.succ_mul, Nat.add_comm (k * chunkSize), ← Nat.sub_sub]

theorem cutReads_shift (reads : Nat → Nat) (chunkSize number : Nat) (rest : Bytes) :
    cutReads reads chunkSize (number + 1) rest = cutReads (fun k => reads (k + 1)) chunkSize number rest := by
  induction length : rest.length using Nat.strong_induction_on generalizing number rest with
  | _ n ih =>
      have same : readSome (fun k => reads (k + 1)) number chunkSize rest =
          readSome reads (number + 1) chunkSize rest := rfl
      conv => lhs; rw [cutReads]
      conv => rhs; rw [cutReads, same]
      split
      · rfl
      next read =>
        congr 1
        apply ih _ _ _ _ rfl
        have some := List.length_pos_iff.mpr read
        have lengths := congrArg List.length (readSome_append reads (number + 1) chunkSize rest)
        rw [List.length_append] at lengths
        omega

/-- The push cuts at the multiples of the chunk size just when its reads are full. -/
theorem cutReads_eq_iff (reads : Nat → Nat) {chunkSize : Nat} (positive : 0 < chunkSize) (content : Bytes) :
    cutReads reads chunkSize 0 content = chunksOf chunkSize content ↔ FullReads reads chunkSize content := by
  induction length : content.length using Nat.strong_induction_on generalizing reads content with
  | _ n ih =>
      by_cases empty : content = []
      · subst empty
        have both : cutReads reads chunkSize 0 [] = chunksOf chunkSize [] := by
          rw [cutReads, readSome, List.take_nil, if_pos rfl, chunksOf_cut positive, if_pos rfl]
        exact ⟨fun _ k inside => absurd inside (Nat.not_lt_zero _), fun _ => both⟩
      · have some := List.length_pos_iff.mpr empty
        have first : readSome reads 0 chunkSize content ≠ [] := by
          intro ended
          exact empty (readSome_eq_nil positive ended)
        rw [cutReads, if_neg first, chunksOf_cut positive, if_neg empty, List.cons.injEq]
        have head : readSome reads 0 chunkSize content = content.take chunkSize ↔
            min chunkSize content.length ≤ max (reads 0) 1 := by
          constructor
          · intro same
            have lengths := congrArg List.length same
            rw [readSome, List.length_take, List.length_take] at lengths
            omega
          · intro full
            apply List.take_eq_take_iff.mpr
            omega
        have taken : readSome reads 0 chunkSize content = content.take chunkSize →
            content.drop (readSome reads 0 chunkSize content).length = content.drop chunkSize := by
          intro same
          rw [same, List.length_take]
          rcases Nat.le_total chunkSize content.length with long | short
          · rw [Nat.min_eq_left long]
          · rw [Nat.min_eq_right short, List.drop_length, List.drop_of_length_le short]
        have shorter : (content.drop chunkSize).length < n := by
          rw [List.length_drop]
          omega
        have tail := ih _ shorter (fun k => reads (k + 1)) (content.drop chunkSize) rfl
        rw [← cutReads_shift] at tail
        rcases Nat.le_total chunkSize content.length with long | short
        · rw [fullReads_cons some long, ← head, ← tail]
          constructor
          · rintro ⟨same, rest⟩
            exact ⟨same, by rwa [taken same] at rest⟩
          · rintro ⟨same, rest⟩
            exact ⟨same, by rwa [taken same]⟩
        · have ended : content.drop chunkSize = [] := List.drop_of_length_le short
          constructor
          · rintro ⟨same, _⟩ k inside
            have zero : k = 0 := by
              by_contra later
              have atLeast : 1 * chunkSize ≤ k * chunkSize := Nat.mul_le_mul_right _ (Nat.pos_of_ne_zero later)
              omega
            subst zero
            simpa using head.mp same
          · intro full
            have same := head.mpr (by simpa using full 0 (by omega))
            refine ⟨same, ?_⟩
            rw [taken same]
            apply tail.mpr
            intro k inside
            rw [ended] at inside
            exact absurd inside (Nat.not_lt_zero _)

def PendingChunkRef.place (ref : PendingChunkRef) : Nat × Nat × Text := (ref.offset, ref.len, ref.hash)

def LocalChunk.place (chunk : LocalChunk) : Nat × Nat × Text := (chunk.offset, chunk.len, chunk.hash)

/-- The references that the push makes of a content. -/
def plannedChunks (env : Env ρ) (config : BlobConfig) (reads : Nat → Nat) (path : PathBuf) (content : Bytes) :
    List PendingChunkRef :=
  chunkRefsFrom env config path 0 (cutReads reads (max config.chunkSize 1) 0 content)

/-- The chunks that the pull puts in its map. -/
def localChunks (env : Env ρ) (config : BlobConfig) (reads : Nat → Nat) (content : Bytes) : List LocalChunk :=
  localChunksFrom env config 0 (fillReads reads config.chunkSize 0 content)

/-- An environment in which the reads of a file return what is said. -/
def Env.reading (env : Env ρ) (reads : Nat → Nat → Nat) : Env ρ :=
  { env with
    pieces := fun tick limit content => if limit = 0 then [] else cutReads (reads tick) limit 0 content
    pieces_flatten := fun tick limit content positive => by
      rw [if_neg (Nat.ne_of_gt positive)]
      exact cutReads_flatten _ positive 0 content
    pieces_length := fun tick limit content => by
      split
      · intro _ inside
        cases inside
      next some =>
        generalize (0 : Nat) = number
        induction length : content.length using Nat.strong_induction_on generalizing number content with
        | _ n ih =>
            intro piece inside
            rw [cutReads] at inside
            split at inside
            · cases inside
            next read =>
              rcases List.mem_cons.mp inside with rfl | later
              · refine ⟨read, ?_⟩
                rw [readSome, List.length_take]
                omega
              · have filled := List.length_pos_iff.mpr read
                have lengths := congrArg List.length (readSome_append (reads tick) number limit content)
                rw [List.length_append] at lengths
                exact ih _ (by omega) _ _ rfl piece later }

theorem chunkRefsFrom_reading (reads : Nat → Nat → Nat) (path : PathBuf) (offset : Nat) (pieces : List Bytes) :
    chunkRefsFrom (env.reading reads) config path offset pieces = chunkRefsFrom env config path offset pieces := by
  induction pieces generalizing offset with
  | nil => rfl
  | cons piece rest ih =>
      rw [chunkRefsFrom, chunkRefsFrom, ih]
      rfl

/-- A file that the push plans has the references of its reads. -/
theorem planFileChunks_reading {reads : Nat → Nat → Nat} {file : PendingPushFile} {planned : PlannedFileChunks}
    {w next : World ρ} (succeeded : planFileChunks (env.reading reads) file config w = (.ok (.ok planned), next)) :
    ∃ content tick, w.disk.read file.localPath = .ok content ∧
      planned.chunkRefs = plannedChunks env config (reads tick) file.localPath content := by
  have triple := @planFileChunks_described ρ (env.reading reads) config w (fun _ _ => True) file
  obtain ⟨pieces, described⟩ := (triple.returned (Unmoved.refl w) (congrArg Prod.fst succeeded)).2 planned rfl
  obtain ⟨tick, cut⟩ := described.cut
  refine ⟨pieces.flatten, tick, described.read, ?_⟩
  have some : max config.chunkSize 1 ≠ 0 := by omega
  have reached : pieces = cutReads (reads tick) (max config.chunkSize 1) 0 pieces.flatten :=
    cut.trans (if_neg some)
  rw [described.refs, plannedChunks, ← reached, chunkRefsFrom_reading]

/-- However short its reads are, the pull hashes the chunks of a local file. -/
theorem localChunks_eq (reads : Nat → Nat) (positive : 0 < config.chunkSize) (content : Bytes) :
    localChunks env config reads content = localChunksFrom env config 0 (chunksOf config.chunkSize content) := by
  rw [localChunks, fillReads_eq reads positive]

/-- The places of chunks tell the lengths that they were cut with. -/
theorem places_eq_iff {path : PathBuf} {offset : Nat} {pieces others : List Bytes} :
    (chunkRefsFrom env config path offset pieces).map PendingChunkRef.place =
        (localChunksFrom env config offset others).map LocalChunk.place →
      pieces.map List.length = others.map List.length := by
  induction pieces generalizing offset others with
  | nil =>
      intro equal
      cases others with
      | nil => rfl
      | cons other more => cases equal
  | cons piece rest ih =>
      intro equal
      cases others with
      | nil => cases equal
      | cons other more =>
          rw [chunkRefsFrom, localChunksFrom, List.map_cons, List.map_cons, List.cons.injEq] at equal
          have length : piece.length = other.length := congrArg (fun place => place.2.1) equal.1
          rw [List.map_cons, List.map_cons, length]
          rw [length] at equal
          rw [ih equal.2]

theorem places_same (path : PathBuf) (offset : Nat) (pieces : List Bytes) :
    (chunkRefsFrom env config path offset pieces).map PendingChunkRef.place =
      (localChunksFrom env config offset pieces).map LocalChunk.place := by
  induction pieces generalizing offset with
  | nil => rfl
  | cons piece rest ih =>
      rw [chunkRefsFrom, localChunksFrom, List.map_cons, List.map_cons, ih]
      rfl

/-- Push and pull cut a content into the same chunks just when the reads of the push are full. -/
theorem plannedChunks_local_iff (env : Env ρ) (config : BlobConfig) (positive : 1 ≤ config.chunkSize)
    (pushReads pullReads : Nat → Nat) (path : PathBuf) (content : Bytes) :
    (plannedChunks env config pushReads path content).map PendingChunkRef.place =
        (localChunks env config pullReads content).map LocalChunk.place ↔
      FullReads pushReads config.chunkSize content := by
  have size : max config.chunkSize 1 = config.chunkSize := Nat.max_eq_left positive
  rw [localChunks_eq pullReads positive, plannedChunks, size, ← cutReads_eq_iff pushReads positive]
  constructor
  · intro equal
    apply List.eq_iff_flatten_eq.mpr
    refine ⟨?_, places_eq_iff equal⟩
    rw [cutReads_flatten pushReads positive, chunksOf, chunksFrom_flatten, List.nil_append]
  · intro equal
    rw [equal]
    exact places_same path 0 _

/-- The reads of the push return four bytes each, and those of the pull three. -/
theorem plannedChunks_local_full :
    (plannedChunks shelfEnv plainConfig (fun _ => 4) [] [1, 2, 3, 4, 5, 6]).map PendingChunkRef.place =
      (localChunks shelfEnv plainConfig (fun _ => 3) [1, 2, 3, 4, 5, 6]).map LocalChunk.place := by
  apply (plannedChunks_local_iff shelfEnv plainConfig (by decide) (fun _ => 4) (fun _ => 3) []
    [1, 2, 3, 4, 5, 6]).mpr
  intro k inside
  show min 4 (6 - k * 4) ≤ max 4 1
  omega

/-- A read of the push that is one byte short moves all boundaries. -/
theorem plannedChunks_differ :
    (plannedChunks shelfEnv plainConfig (fun _ => 3) [] [1, 2, 3, 4, 5, 6]).map PendingChunkRef.place ≠
      (localChunks shelfEnv plainConfig (fun _ => 3) [1, 2, 3, 4, 5, 6]).map LocalChunk.place := by
  have cut : (plannedChunks shelfEnv plainConfig (fun _ => 3) [] [1, 2, 3, 4, 5, 6]).map PendingChunkRef.place =
      [(0, 3, plainDigest [1, 2, 3]), (3, 3, plainDigest [4, 5, 6])] := by
    simp [plannedChunks, cutReads, readSome, chunkRefsFrom, PendingChunkRef.place, plainConfig, chunkHash,
      shelfEnv, calmEnv, utf8]
  have whole : (localChunks shelfEnv plainConfig (fun _ => 3) [1, 2, 3, 4, 5, 6]).map LocalChunk.place =
      [(0, 4, plainDigest [1, 2, 3, 4]), (4, 2, plainDigest [5, 6])] := by
    rw [localChunks_eq (fun _ => 3) (by decide)]
    decide
  rw [cut, whole]
  decide

end AeordbSync

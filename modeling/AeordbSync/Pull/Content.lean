import AeordbSync.Pull.Leftovers

namespace AeordbSync
open Characters OsPath FileSystem Effect

variable {ρ : Type}

/-- The file consists of chunks with the listed hashes, and the result states its size and its hash. -/
structure ConsistsOf (env : Env ρ) (hashPrefix : Text) (hashes : List Text) (pieces : List Bytes) (q : Location)
    (result : Nat × Text) (disk : Tree) : Prop where
  chunks : pieces.map (chunkHash env.digest hashPrefix) = hashes
  content : ∃ time, disk.node q = some (.file pieces.flatten time)
  result : result = (pieces.flatten.length, env.digest pieces.flatten)

/-- The partial file is written for itself: its path names no symlink, and the local path does not lead to it. -/
def Separate (disk : Tree) (path : PathBuf) : Prop :=
  ∀ m, disk.resolve false (partialPath path) = .ok m → ¬ disk.Symlinked m ∧ disk.resolve true path ≠ .ok m

/-- What is taken for each listed chunk has its hash: what is read again from the local file, and what the server has
returned. -/
structure Matching (env : Env ρ) (hashPrefix : Text) (fetched : List (Text × Bytes)) (plan : FilePlan) (disk : Tree) :
    Prop where
  held : ∀ hash ∈ plan.entry.chunkHashes, ∀ chunk, findLast LocalChunk.hash hash plan.localChunks = some chunk →
    ∀ content bytes, disk.read plan.localPath = .ok content → readExact content chunk.offset chunk.len = .ok bytes →
      chunkHash env.digest hashPrefix bytes = hash
  returned : ∀ hash ∈ plan.entry.chunkHashes, findLast LocalChunk.hash hash plan.localChunks = none →
    ∀ pair, findLast Prod.fst hash fetched = some pair → chunkHash env.digest hashPrefix pair.2 = hash

/-- How many bytes are taken for a chunk. -/
def takenLength (fetched : List (Text × Bytes)) (plan : FilePlan) (hash : Text) : Nat :=
  match findLast LocalChunk.hash hash plan.localChunks with
  | some chunk => chunk.len
  | none => match findLast Prod.fst hash fetched with
    | some pair => pair.2.length
    | none => 0

section

variable {env : Env ρ} {plan : FilePlan} {fetched : List (Text × Bytes)} {w : World ρ} {hashPrefix : Text}

/-- The bytes that are taken for a chunk, in terms of the local path. -/
def Taken (fetched : List (Text × Bytes)) (plan : FilePlan) (disk : Tree) (hash : Text) (bytes : Bytes) : Prop :=
  match findLast LocalChunk.hash hash plan.localChunks with
  | some chunk => ∃ content, disk.read plan.localPath = .ok content ∧
      readExact content chunk.offset chunk.len = .ok bytes
  | none => ∃ pair, findLast Prod.fst hash fetched = some pair ∧ pair.2 = bytes

theorem read_of_contentAt {disk : Tree} {path : PathBuf} {r : Location} {content : Bytes}
    (opened : disk.resolve true path = .ok r) (here : contentAt disk r = .ok content) : disk.read path = .ok content := by
  unfold contentAt at here
  unfold Tree.read Tree.metadata
  rw [opened]
  cases node : disk.node r with
  | none =>
      rw [node] at here
      cases here
  | some entry =>
      rw [node] at here
      cases entry with
      | file bytes time =>
          cases here
          simp only [node]
      | directory | symlink | special => cases here

theorem length_of_readExact {content bytes : Bytes} {offset len : Nat}
    (read : readExact content offset len = .ok bytes) : bytes.length = len := by
  unfold readExact at read
  split at read
  · cases read
  next enough =>
    cases read
    rw [List.length_take, List.length_drop]
    omega

theorem taken_of_supplied {reader : Option Location} {l : Location} {hash : Text} {bytes : Bytes}
    (opened : ∀ r, reader = some r → w.disk.resolve true plan.localPath = .ok r ∧ r ≠ l)
    (supplied : Supplied w.disk reader l plan.localChunks fetched hash bytes) :
    Taken fetched plan w.disk hash bytes := by
  unfold Supplied at supplied
  unfold Taken
  cases held : findLast LocalChunk.hash hash plan.localChunks with
  | none =>
      rw [held] at supplied
      exact supplied
  | some chunk =>
      rw [held] at supplied
      obtain ⟨r, known, reads⟩ := supplied
      obtain ⟨leads, apart⟩ := opened r known
      obtain ⟨content, here, cut⟩ := reads apart
      exact ⟨content, read_of_contentAt leads here, cut⟩

theorem length_of_taken {hash : Text} {bytes : Bytes} (taken : Taken fetched plan w.disk hash bytes) :
    bytes.length = takenLength fetched plan hash := by
  unfold Taken at taken
  unfold takenLength
  cases held : findLast LocalChunk.hash hash plan.localChunks with
  | none =>
      rw [held] at taken
      obtain ⟨pair, received, rfl⟩ := taken
      simp only [received]
  | some chunk =>
      rw [held] at taken
      obtain ⟨content, -, read⟩ := taken
      exact length_of_readExact read

theorem Matching.chunk (matching : Matching env hashPrefix fetched plan w.disk) {hash : Text}
    (inside : hash ∈ plan.entry.chunkHashes) {bytes : Bytes} (taken : Taken fetched plan w.disk hash bytes) :
    chunkHash env.digest hashPrefix bytes = hash := by
  unfold Taken at taken
  cases held : findLast LocalChunk.hash hash plan.localChunks with
  | none =>
      rw [held] at taken
      obtain ⟨pair, received, rfl⟩ := taken
      exact matching.returned hash inside held pair received
  | some chunk =>
      rw [held] at taken
      obtain ⟨content, read, cut⟩ := taken
      exact matching.held hash inside chunk held content bytes read cut

/-- Where something taken for each chunk has its hash, everything taken for it has. -/
theorem matching_of_taken (each : ∀ hash ∈ plan.entry.chunkHashes, ∃ bytes, Taken fetched plan w.disk hash bytes ∧
    chunkHash env.digest hashPrefix bytes = hash) : Matching env hashPrefix fetched plan w.disk := by
  constructor
  · intro hash inside chunk held content bytes read cut
    obtain ⟨other, taken, same⟩ := each hash inside
    unfold Taken at taken
    rw [held] at taken
    obtain ⟨again, found, recut⟩ := taken
    rw [read] at found
    cases found
    rw [cut] at recut
    cases recut
    exact same
  · intro hash inside none pair received
    obtain ⟨other, taken, same⟩ := each hash inside
    unfold Taken at taken
    rw [none] at taken
    obtain ⟨again, found, rfl⟩ := taken
    rw [received] at found
    cases found
    exact same

theorem exists_of_forall₂ {R : Text → Bytes → Prop} {f : Bytes → Text} {hashes : List Text} {used : List Bytes}
    (related : List.Forall₂ R hashes used) (same : used.map f = hashes) :
    ∀ hash ∈ hashes, ∃ bytes, R hash bytes ∧ f bytes = hash := by
  induction related with
  | nil => intro hash inside; cases inside
  | cons first _ ih =>
      rw [List.map_cons, List.cons.injEq] at same
      intro hash inside
      rcases List.mem_cons.mp inside with rfl | later
      · exact ⟨_, first, same.1⟩
      · exact ih same.2 hash later

theorem map_of_forall₂ {R : Text → Bytes → Prop} {β : Type} {f : Bytes → β} {g : Text → β} {hashes : List Text}
    {used : List Bytes} (related : List.Forall₂ R hashes used)
    (each : ∀ hash ∈ hashes, ∀ bytes, R hash bytes → f bytes = g hash) : used.map f = hashes.map g := by
  induction related with
  | nil => rfl
  | cons first _ ih =>
      rw [List.map_cons, List.map_cons, each _ (List.mem_cons_self ..) _ first,
        ih fun hash inside => each hash (List.mem_cons_of_mem _ inside)]

end

/-- An entry that has been replaced by the partial file holds what was written. -/
theorem replaced_content {env : Env ρ} {before : Tree} {m l q : Location} {stands : Prop} {first : Nat}
    {written : Bytes} {path : PathBuf} {w : World ρ} (cut : ∀ segment ∈ path, slash ∉ segment)
    (site : Site before (partialPath path) m l) (plain : ¬ before.Symlinked m)
    (named : before.resolve false path = .ok q)
    (replaced : Replaced env before m l stands first written path w) :
    ∃ time, w.disk.node q = some (.file written time) := by
  obtain ⟨s, target, node, growing, found, present, -, free, moved⟩ := replaced.moved
  rw [named] at found
  cases found
  obtain rfl : m = l := site.entry.resolve_right plain
  obtain ⟨moment, -, rfl⟩ := growing.here node present
  by_cases same : m = q
  · subst same
    rw [moved, if_pos rfl]
    exact ⟨_, present⟩
  · rw [moved, if_neg same]
    refine ⟨env.clock moment, ?_⟩
    have there := (growing.sameWays site).resolve named
    have placeable := (Tree.placeable_of_named cut there free).erase (growing.not_directory site)
    rw [Tree.node_put _ placeable, if_pos rfl]

/-- A file that has been assembled consists of chunks with the listed hashes when what was taken for each chunk has its
hash; and when it consists of such chunks, of the lengths that were taken, then what was taken has these hashes. -/
theorem assembleFile_consists (env : Env ρ) (hashPrefix : Text) (fetched : List (Text × Bytes)) (plan : FilePlan)
    (w next : World ρ) (result : Nat × Text) {place : OsText} (path : plan.localPath = ofText place)
    (separate : Separate w.disk plan.localPath) (assembled : assembleFile env fetched plan w = (.ok result, next)) :
    ∃ q, w.disk.resolve false plan.localPath = .ok q ∧
      (Matching env hashPrefix fetched plan w.disk →
        ∃ pieces, ConsistsOf env hashPrefix plan.entry.chunkHashes pieces q result next.disk) ∧
      ∀ pieces, ConsistsOf env hashPrefix plan.entry.chunkHashes pieces q result next.disk →
        pieces.map List.length = plan.entry.chunkHashes.map (takenLength fetched plan) →
        Matching env hashPrefix fetched plan w.disk := by
  have cut : ∀ segment ∈ plan.localPath, slash ∉ segment := by
    rw [path]
    exact fun segment inside => not_mem_of_mem_splitOn inside
  have created : ∃ reader l last, Creates env plan w reader l last := by
    by_contra never
    obtain ⟨error, failed, -⟩ := @assembly_refused _ env plan fetched w fun reader l last creates =>
      never ⟨reader, l, last, creates⟩
    rw [assembled] at failed
    cases failed
  obtain ⟨reader, l, last, creates⟩ := created
  obtain ⟨m, -, site, opened, outcome⟩ := @assembly_end _ env plan fetched w last reader l creates
  rw [assembled] at outcome
  obtain ⟨-, used, rfl, supplied, replaced⟩ := outcome
  obtain ⟨plain, away⟩ := separate m site.named
  have same : m = l := site.entry.resolve_right plain
  have taken : List.Forall₂ (Taken fetched plan w.disk) plan.entry.chunkHashes used := by
    refine supplied.imp fun hash bytes known => taken_of_supplied (fun r equal => ⟨opened r equal, ?_⟩) known
    rintro rfl
    exact away (same ▸ opened _ equal)
  obtain ⟨q, named⟩ : ∃ q, w.disk.resolve false plan.localPath = .ok q := by
    obtain ⟨s, q, node, -, named, -⟩ := replaced.moved
    exact ⟨q, named⟩
  obtain ⟨time, content⟩ := replaced_content cut site plain named replaced
  refine ⟨q, named, fun matching => ⟨used, ?_, ⟨time, content⟩, rfl⟩, fun pieces consists lengths => ?_⟩
  · have mapped := map_of_forall₂ taken fun hash inside bytes known => matching.chunk inside known
    rw [mapped, List.map_id']
  · obtain ⟨other, held⟩ := consists.content
    rw [content] at held
    have whole : used.flatten = pieces.flatten := by
      have equal := Option.some.inj held
      rw [Node.file.injEq] at equal
      exact equal.1
    have sizes := map_of_forall₂ taken fun hash _ bytes known => length_of_taken known
    have equal : used = pieces := List.eq_iff_flatten_eq.mpr ⟨whole, sizes.trans lengths.symm⟩
    subst equal
    exact matching_of_taken (exists_of_forall₂ taken consists.chunks)

namespace Leftovers

def target : Location := [osText (text "home"), osText (text "a.txt")]

/-- One byte was found in the local file. -/
def reusing : FilePlan := planWith [⟨plainDigest [65], 0, 1⟩]

theorem pieces_of_listed {pieces : List Bytes} {result : Nat × Text} {disk : Tree} {q : Location}
    (consists : ConsistsOf shelfEnv [] [plainDigest [65]] pieces q result disk) :
    ∃ time, disk.node q = some (.file [65] time) := by
  have same : pieces.map plainDigest = [[65]].map plainDigest := consists.chunks
  have known := List.map_injective_iff.mpr plainDigest_injective same
  obtain ⟨time, held⟩ := consists.content
  rw [known] at held
  exact ⟨time, held⟩

theorem matching_of_run {plan : FilePlan} {w : World Shelf} {chunk : LocalChunk} {content bytes : Bytes}
    (listed : plan.entry.chunkHashes = [plainDigest bytes])
    (found : findLast LocalChunk.hash (plainDigest bytes) plan.localChunks = some chunk)
    (read : w.disk.read plan.localPath = .ok content) (cut : readExact content chunk.offset chunk.len = .ok bytes) :
    Matching shelfEnv [] [] plan w.disk := by
  constructor
  · intro hash inside other known content' bytes' read' cut'
    rw [listed] at inside
    obtain rfl := List.mem_singleton.mp inside
    rw [found] at known
    cases known
    rw [read] at read'
    cases read'
    rw [cut] at cut'
    cases cut'
    rfl
  · intro hash inside none
    rw [listed] at inside
    obtain rfl := List.mem_singleton.mp inside
    rw [found] at none
    cases none

theorem separate_of_run {plan : FilePlan} {w : World Shelf} {m : Location}
    (place : w.disk.resolve false (partialPath plan.localPath) = .ok m) (plain : ¬ w.disk.Symlinked m)
    (apart : w.disk.resolve true plan.localPath ≠ .ok m) : Separate w.disk plan.localPath := by
  intro other named
  rw [place] at named
  cases named
  exact ⟨plain, apart⟩

theorem assembled_of_run {fetched : List (Text × Bytes)} {plan : FilePlan} {w : World Shelf} {result : Nat × Text}
    (ran : (assembleFile shelfEnv fetched plan w).1.toOption = some result) :
    ∃ next, assembleFile shelfEnv fetched plan w = (.ok result, next) :=
  ⟨_, Prod.ext (eq_ok_of_toOption ran) rfl⟩

/-- Nothing has changed since the chunks were found, so the file is made of the listed chunk. -/
theorem assembleFile_consists_reused : ∃ next, ∃ q,
    assembleFile shelfEnv [] reusing (worldOf [("a.txt", .file [65] 1)]) = (.ok (1, plainDigest [65]), next) ∧
      ∃ pieces, ConsistsOf shelfEnv [] reusing.entry.chunkHashes pieces q (1, plainDigest [65]) next.disk := by
  have separate : Separate (worldOf [("a.txt", .file [65] 1)]).disk reusing.localPath :=
    @separate_of_run reusing (worldOf [("a.txt", .file [65] 1)]) namesakeLocation (by decide +kernel)
      (by decide +kernel) (by decide +kernel)
  have matching : Matching shelfEnv [] [] reusing (worldOf [("a.txt", .file [65] 1)]).disk :=
    @matching_of_run reusing (worldOf [("a.txt", .file [65] 1)]) ⟨plainDigest [65], 0, 1⟩ [65] [65]
      (by decide +kernel) (List.find?_cons_of_pos (decide_eq_true rfl)) (by decide +kernel) (by decide +kernel)
  obtain ⟨next, assembled⟩ := @assembled_of_run [] reusing (worldOf [("a.txt", .file [65] 1)]) (1, plainDigest [65])
    (by decide +kernel)
  obtain ⟨q, -, consists, -⟩ := assembleFile_consists shelfEnv [] [] reusing (worldOf [("a.txt", .file [65] 1)]) next
    (1, plainDigest [65]) rfl separate assembled
  exact ⟨next, q, assembled, consists matching⟩

theorem unlisted_of_run {fetched : List (Text × Bytes)} {plan : FilePlan} {w : World Shelf}
    (hashes : plan.entry.chunkHashes = [plainDigest [65]])
    (ran : (assembleFile shelfEnv fetched plan w).1.toOption = some (1, plainDigest [66]))
    (place : w.disk.resolve false plan.localPath = .ok target)
    (written : ((assembleFile shelfEnv fetched plan w).2.disk.node target).bind Node.content? = some [66]) :
    ∃ next, assembleFile shelfEnv fetched plan w = (.ok (1, plainDigest [66]), next) ∧
      ∀ q pieces, w.disk.resolve false plan.localPath = .ok q →
        ¬ ConsistsOf shelfEnv [] plan.entry.chunkHashes pieces q (1, plainDigest [66]) next.disk := by
  obtain ⟨next, assembled⟩ := assembled_of_run ran
  refine ⟨next, assembled, fun q pieces named consists => ?_⟩
  rw [assembled] at written
  rw [place] at named
  cases named
  rw [hashes] at consists
  obtain ⟨time, held⟩ := pieces_of_listed consists
  rw [held] at written
  cases written

/-- The local file has another byte when it is read again, or the server returns another byte under the hash. -/
theorem assembleFile_unlisted :
    (∃ next, assembleFile shelfEnv [] reusing (worldOf [("a.txt", .file [66] 1)]) = (.ok (1, plainDigest [66]), next) ∧
      ∀ q pieces, (worldOf [("a.txt", .file [66] 1)]).disk.resolve false reusing.localPath = .ok q →
        ¬ ConsistsOf shelfEnv [] reusing.entry.chunkHashes pieces q (1, plainDigest [66]) next.disk) ∧
    (∃ next, assembleFile shelfEnv [(plainDigest [65], [66])] (planWith []) (worldOf []) =
        (.ok (1, plainDigest [66]), next) ∧
      ∀ q pieces, (worldOf []).disk.resolve false (planWith []).localPath = .ok q →
        ¬ ConsistsOf shelfEnv [] (planWith []).entry.chunkHashes pieces q (1, plainDigest [66]) next.disk) :=
  ⟨unlisted_of_run rfl (by decide +kernel) (by decide +kernel) (by decide +kernel),
    unlisted_of_run rfl (by decide +kernel) (by decide +kernel) (by decide +kernel)⟩

end Leftovers

end AeordbSync

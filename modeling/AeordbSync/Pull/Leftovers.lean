import AeordbSync.Pull.Partial

namespace AeordbSync
open Characters OsPath FileSystem Effect

variable {ρ α : Type}

/-- A failure has changed nothing, and a success nothing but the entry that the path names. -/
structure Untouched (before : Tree) (path : PathBuf) (outcome : Except ClientError α × World ρ) : Prop where
  failed : ∀ error, outcome.1 = .error error → ∀ q, outcome.2.disk.node q = before.node q
  succeeded : ∀ a, outcome.1 = .ok a → ∀ q, before.resolve false path ≠ .ok q →
    outcome.2.disk.node q = before.node q

/-- Where the partial file is created nothing stands in its place, and the assembly does not end at a chunk of a local
file that is not open. -/
def KeepsApart (env : Env ρ) (fetched : List (Text × Bytes)) (plan : FilePlan) (w : World ρ) : Prop :=
  ∀ reader l last, Creates env plan w reader l last →
    (∀ m, w.disk.resolve false (partialPath plan.localPath) = .ok m → w.disk.node m = none) ∧
      ¬ (reader = none ∧ EndsUnopened env plan.localPath plan.localChunks fetched last.tick plan.entry.chunkHashes)

/-- The clock does not repeat the time of a file, and a file that has been created is there. -/
structure Discerned (env : Env ρ) (plan : FilePlan) (w : World ρ) : Prop where
  clock : ∀ q content time, w.disk.node q = some (.file content time) →
    ∀ moment, w.tick ≤ moment → env.clock moment ≠ time
  stands : ∀ reader l last, Creates env plan w reader l last → last.disk.node l ≠ none

section

variable {env : Env ρ} {plan : FilePlan} {fetched : List (Text × Bytes)} {w : World ρ} {reader : Option Location}
  {m l : Location} {last : World ρ}

theorem partial_steps (segment : OsText) : Tree.Steps (segment ++ osText (text ".aeordb-pull.tmp")) := by
  have length : (osText (text ".aeordb-pull.tmp")).length = 16 := by decide
  have long : ∀ other : OsText, other.length ≤ 2 → segment ++ osText (text ".aeordb-pull.tmp") ≠ other := by
    intro other short equal
    have lengths := congrArg List.length equal
    rw [List.length_append] at lengths
    omega
  exact ⟨fun idle => idle.elim (long _ (by decide)) (long _ (by decide)), long _ (by decide)⟩

theorem partial_ne_target {before : Tree} {path : PathBuf} {q : Location} (named : before.resolve false path = .ok q)
    (beside : before.resolve false (partialPath path) = .ok m) (free : before.node q ≠ some .directory) : m ≠ q := by
  rcases List.eq_nil_or_concat path with rfl | ⟨front, segment, rfl⟩
  · cases named
  · rw [List.concat_eq_append] at named beside
    unfold partialPath pushText at beside
    rw [List.getLast?_concat, List.dropLast_concat] at beside
    have longer : osText (text ".aeordb-pull.tmp") ≠ [] := by decide
    exact Tree.resolve_longer_last longer (partial_steps segment) named beside free

theorem untouched_of_apart (removes : env.Removes)
    (apart : KeepsApart env fetched plan w) : Untouched w.disk plan.localPath (assembleFile env fetched plan w) := by
  by_cases created : ∃ reader l last, Creates env plan w reader l last
  · obtain ⟨reader, l, last, creates⟩ := created
    obtain ⟨m, -, site, -, outcome⟩ := @assembly_end _ env plan fetched w last reader l creates
    obtain ⟨vacant, never⟩ := apart reader l last creates
    have here := vacant m site.named
    have same : m = l := by
      rcases site.entry with equal | ⟨target, time, link⟩
      · exact equal
      · rw [here] at link
        cases link
    subst same
    rcases run : assembleFile env fetched plan w with ⟨result, next⟩
    rw [run] at outcome
    cases result with
    | error error =>
        rcases outcome with ⟨unopened, ends, -⟩ | ⟨cleaned, -⟩
        · exact absurd ⟨unopened, ends⟩ never
        refine ⟨fun _ _ q => ?_, fun a succeeded => by cases succeeded⟩
        by_cases own : q = m
        · rw [own, here]
          exact (cleaned removes).gone
        · exact (cleaned removes).elsewhere q own own
    | ok a =>
        obtain ⟨-, used, -, -, ⟨s, target, node, growing, named, present, -, free, moved⟩⟩ := outcome
        refine ⟨fun _ failed => (by cases failed), fun _ _ q other => ?_⟩
        have elsewhere : q ≠ target := fun equal => other (equal ▸ named)
        show next.disk.node q = w.disk.node q
        rw [moved]
        split
        next equal => exact growing.elsewhere q (equal ▸ elsewhere)
        next apart =>
          have leaf := growing.not_directory site
          rw [Tree.node_put_ne _ elsewhere, Tree.node_erase _ leaf]
          split
          next own => rw [own, here]
          next away => exact growing.elsewhere q away
  · obtain ⟨error, refused, unchanged⟩ := assembly_refused fun reader l last creates => created ⟨reader, l, last, creates⟩
    refine ⟨fun _ _ q => by rw [unchanged], fun a succeeded => ?_⟩
    rw [refused] at succeeded
    cases succeeded

theorem apart_of_untouched (removes : env.Removes)
    (discerned : Discerned env plan w)
    (untouched : Untouched w.disk plan.localPath (assembleFile env fetched plan w)) : KeepsApart env fetched plan w := by
  intro reader l last creates
  obtain ⟨m, -, site, -, outcome⟩ := @assembly_end _ env plan fetched w last reader l creates
  have stands := discerned.stands reader l last creates
  rcases run : assembleFile env fetched plan w with ⟨result, next⟩
  rw [run] at outcome untouched
  cases result with
  | error error =>
      have unchanged := untouched.failed error rfl
      rcases outcome with ⟨-, -, more, growing⟩ | ⟨cleaned, never⟩
      · -- The partial file is left where it was made, with a time of its own.
        exfalso
        obtain ⟨node, present⟩ := Option.ne_none_iff_exists'.mp (growing.stands stands)
        obtain ⟨moment, later, rfl⟩ := growing.here node present
        have before : w.disk.node l = some _ := (unchanged l).symm.trans present
        exact discerned.clock l _ _ before moment later rfl
      · refine ⟨fun other named => ?_, never⟩
        rw [site.named] at named
        cases named
        exact (unchanged m).symm.trans (cleaned removes).gone
  | ok a =>
      obtain ⟨never, used, -, -, ⟨s, target, node, growing, named, present, -, free, moved⟩⟩ := outcome
      refine ⟨fun other found => ?_, never⟩
      rw [site.named] at found
      cases found
      have clear : w.disk.node target ≠ some .directory := by
        intro directory
        have away : target ≠ l := by
          rintro rfl
          have leaf := site.leaf
          rw [directory] at leaf
          exact leaf
        exact free ((growing.elsewhere target away).trans directory)
      have apart := partial_ne_target named site.named clear
      have unchanged : next.disk.node m = w.disk.node m := untouched.succeeded a rfl m fun equal => by
        rw [named] at equal
        exact apart (Except.ok.inj equal).symm
      rw [← unchanged]
      show next.disk.node m = none
      rw [moved, if_neg apart, Tree.node_put_ne _ apart, Tree.node_erase _ (growing.not_directory site), if_pos rfl]

/-- Where the partial file is created at a free place and removed whenever the assembly fails, nothing but the target
changes; and where nothing but the target changes, this has been so. -/
theorem assembleFile_untouched (env : Env ρ) (fetched : List (Text × Bytes)) (plan : FilePlan) (w : World ρ)
    (removes : env.Removes) :
    (KeepsApart env fetched plan w → Untouched w.disk plan.localPath (assembleFile env fetched plan w)) ∧
      (Discerned env plan w → Untouched w.disk plan.localPath (assembleFile env fetched plan w) →
        KeepsApart env fetched plan w) :=
  ⟨untouched_of_apart removes, apart_of_untouched removes⟩

end

namespace Leftovers

def fetched : List (Text × Bytes) := [(plainDigest [65], [65])]

/-- A file of one chunk, and what of it was found in the local file. -/
def planWith (chunks : List LocalChunk) : FilePlan where
  entry := ⟨text "/docs/a.txt", plainDigest [65], 1, none, [plainDigest [65]]⟩
  localPath := ofText (osText (text "/home/a.txt"))
  localChunks := chunks

def worldOf (files : List (String × Node)) : World Shelf := startWorld (homeTree files) [] (Shelf.holding [])

/-- Another file that is synchronised has the name of the partial file. -/
def namesake : World Shelf := worldOf [("a.txt.aeordb-pull.tmp", .file [66] 1)]

/-- The local file has gone since its chunks were found. -/
def removed : FilePlan := planWith [⟨plainDigest [65], 0, 1⟩]

def namesakeLocation : Location := [osText (text "home"), osText (text "a.txt.aeordb-pull.tmp")]

theorem eq_ok_of_toOption {result : Except ClientError α} {a : α} (some : result.toOption = some a) :
    result = .ok a := by
  cases result with
  | error error => cases some
  | ok b => exact congrArg Except.ok (Option.some.inj some)

theorem exists_of_toOption {result : Except ClientError α} (none : result.toOption = none) :
    ∃ error, result = .error error := by
  cases result with
  | error error => exact ⟨error, rfl⟩
  | ok b => cases none

theorem assembleFile_untouched_alone :
    Untouched (worldOf []).disk (planWith []).localPath (assembleFile shelfEnv fetched (planWith []) (worldOf [])) ∧
      (assembleFile shelfEnv fetched (planWith []) (worldOf [])).1 = .ok (1, plainDigest [65]) := by
  have ran : (assembleFile shelfEnv fetched (planWith []) (worldOf [])).1.toOption = some (1, plainDigest [65]) := by
    decide +kernel
  refine ⟨(assembleFile_untouched shelfEnv fetched (planWith []) (worldOf []) fun _ _ => rfl).1 ?_,
    eq_ok_of_toOption ran⟩
  intro reader l last creates
  have received : findLast Prod.fst (plainDigest [65]) fetched = some (plainDigest [65], [65]) := by decide
  refine ⟨fun m named => ?_, fun lost => ?_⟩
  · have place : (worldOf []).disk.resolve false (partialPath (planWith []).localPath) = .ok namesakeLocation := by
      decide +kernel
    rw [place] at named
    cases named
    decide +kernel
  · have ends := lost.2
    rw [show (planWith []).entry.chunkHashes = [plainDigest [65]] from rfl, EndsUnopened, received] at ends
    exact ends.2

/-- The namesake is gone after a success, and the partial file stays after a failure. -/
theorem assembleFile_touches :
    ¬ Untouched namesake.disk (planWith []).localPath (assembleFile shelfEnv fetched (planWith []) namesake) ∧
      ¬ Untouched (worldOf []).disk removed.localPath (assembleFile shelfEnv fetched removed (worldOf [])) := by
  constructor
  · intro untouched
    have ran : (assembleFile shelfEnv fetched (planWith []) namesake).1.toOption = some (1, plainDigest [65]) := by
      decide +kernel
    have other : namesake.disk.resolve false (planWith []).localPath ≠ .ok namesakeLocation := by decide +kernel
    have same := untouched.succeeded _ (eq_ok_of_toOption ran) namesakeLocation other
    have gone : (assembleFile shelfEnv fetched (planWith []) namesake).2.disk.node namesakeLocation ≠
        namesake.disk.node namesakeLocation := by decide +kernel
    exact gone same
  · intro untouched
    have failed : (assembleFile shelfEnv fetched removed (worldOf [])).1.toOption = none := by decide +kernel
    obtain ⟨error, failed⟩ := exists_of_toOption failed
    have same := untouched.failed error failed namesakeLocation
    have left : (assembleFile shelfEnv fetched removed (worldOf [])).2.disk.node namesakeLocation ≠
        (worldOf []).disk.node namesakeLocation := by decide +kernel
    exact left same

end Leftovers

end AeordbSync

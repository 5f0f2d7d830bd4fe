import AeordbSync.Library.Neighbours
import AeordbSync.Pull.Rules
import AeordbSync.Reference

namespace AeordbSync
open Characters OsPath FileSystem Effect

/-- Where a path leads when a file is created there, beside the entry that it names. -/
structure Site (before : Tree) (path : PathBuf) (m l : Location) : Prop where
  named : before.resolve false path = .ok m
  followed : before.resolve true path = .ok l
  leaf : Leaf (before.node l)

theorem Site.entry {before : Tree} {path : PathBuf} {m l : Location} (site : Site before path m l) :
    m = l ∨ before.Symlinked m := by
  by_cases linked : before.Symlinked m
  · exact Or.inr linked
  · have same := before.resolve_unlinked (fun target time link => linked ⟨target, time, link⟩) site.named
    rw [site.followed] at same
    exact Or.inl (Except.ok.inj same).symm

variable {ρ α : Type}

/-- Only the partial file has changed. It is made of the bytes that have been written since the first moment, and it
stands when its creation has placed it. -/
structure Growing (env : Env ρ) (before : Tree) (l : Location) (stands : Prop) (first : Nat) (written : Bytes)
    (w : World ρ) : Prop where
  workingDirectory : w.disk.workingDirectory = before.workingDirectory
  elsewhere : ∀ q, q ≠ l → w.disk.node q = before.node q
  here : ∀ node, w.disk.node l = some node → ∃ moment, first ≤ moment ∧ node = .file written (env.clock moment)
  stands : stands → w.disk.node l ≠ none
  later : first ≤ w.tick

/-- The entry of the partial path is gone, and what the path leads to is the only other change. -/
structure Cleaned (before : Tree) (m l : Location) (w : World ρ) : Prop where
  gone : w.disk.node m = none
  elsewhere : ∀ q, q ≠ l → q ≠ m → w.disk.node q = before.node q

/-- No removal fails. -/
def Env.Removes (env : Env ρ) : Prop := ∀ path tick, env.diskFault .removeFile path tick = none

/-- The partial entry has taken the place of the target. -/
structure Replaced (env : Env ρ) (before : Tree) (m l : Location) (stands : Prop) (first : Nat) (written : Bytes)
    (path : PathBuf) (w : World ρ) : Prop where
  moved : ∃ s q node, Growing env before l stands first written s ∧ before.resolve false path = .ok q ∧
    s.disk.node m = some node ∧ node ≠ .directory ∧ s.disk.node q ≠ some .directory ∧
    w.disk = if m = q then s.disk else (s.disk.erase m).put q node

section Steps

variable {env : Env ρ} {before : Tree} {path : PathBuf} {m l : Location} {stands : Prop} {first : Nat}
  {written : Bytes} {w : World ρ}

theorem Growing.leaf (growing : Growing env before l stands first written w) : Leaf (w.disk.node l) := by
  cases here : w.disk.node l with
  | none => exact trivial
  | some node =>
      obtain ⟨moment, -, rfl⟩ := growing.here node here
      exact trivial

theorem Growing.sameWays (growing : Growing env before l stands first written w) (site : Site before path m l) :
    Tree.SameWays before w.disk :=
  Tree.sameWays_of_leaf growing.workingDirectory growing.elsewhere site.leaf growing.leaf

theorem Growing.advance (growing : Growing env before l stands first written w) :
    Growing env before l stands first written w.advance :=
  ⟨growing.workingDirectory, growing.elsewhere, growing.here, growing.stands, Nat.le_succ_of_le growing.later⟩

theorem Growing.note (growing : Growing env before l stands first written w) (log : List (Event ρ)) :
    Growing env before l stands first written { w with log := log } :=
  ⟨growing.workingDirectory, growing.elsewhere, growing.here, growing.stands, growing.later⟩

/-- The entry that the partial path names is no directory. -/
theorem Growing.not_directory (growing : Growing env before l stands first written w) (site : Site before path m l) :
    w.disk.node m ≠ some .directory := by
  intro directory
  by_cases same : m = l
  · subst same
    have leaf := growing.leaf
    rw [directory] at leaf
    exact leaf
  · rw [growing.elsewhere m same] at directory
    rcases site.entry with equal | ⟨target, time, link⟩
    · exact same equal
    · rw [directory] at link
      cases link

theorem Growing.append (growing : Growing env before l stands first written w) (bytes : Bytes) :
    Growing env before l stands first (written ++ bytes)
      { w.advance with disk := w.disk.append (env.clock w.tick) l bytes } := by
  unfold Tree.append
  cases here : w.disk.node l with
  | none =>
      refine ⟨growing.workingDirectory, growing.elsewhere, fun node found => ?_, growing.stands,
        Nat.le_succ_of_le growing.later⟩
      exact absurd (here.symm.trans found) (by simp)
  | some node =>
      obtain ⟨moment, -, rfl⟩ := growing.here node here
      have placeable := w.disk.placeable_of_present (l := l) (by rw [here]; simp) (by rw [here]; simp)
      have placed : (w.disk.put l (.file (written ++ bytes) (env.clock w.tick))).node l = _ :=
        w.disk.node_put placeable l
      rw [if_pos rfl] at placed
      refine ⟨?_, fun q other => ?_, fun node found => ?_, fun _ => ?_, Nat.le_succ_of_le growing.later⟩
      · exact (w.disk.put_workingDirectory l _).trans growing.workingDirectory
      · exact (w.disk.node_put_ne other).trans (growing.elsewhere q other)
      · exact ⟨w.tick, growing.later, Option.some.inj (found.symm.trans placed)⟩
      · exact fun gone => absurd (gone.symm.trans placed) (by simp)

theorem readDisk_grows {call : DiskCall} {other : PathBuf} {f : Tree → Except IoError α}
    {E : ClientError → World ρ → Prop} :
    Triple (Growing env before l stands first written) (readDisk env call other f)
      (fun r w => Growing env before l stands first written w ∧ ∀ a, r = .ok a → f w.disk = .ok a) E := by
  refine readDisk_triple fun w growing => ⟨growing.advance, fun a returned => ?_⟩
  unfold Env.faulty at returned
  split at returned
  · cases returned
  · exact returned

theorem readLocalChunk_grows {other : PathBuf} {r : Location} {chunk : LocalChunk} :
    Triple (Growing env before l stands first written) (readLocalChunk env other r chunk)
      (fun bytes w => Growing env before l stands first written w ∧ (r ≠ l → ∃ content,
        contentAt before r = .ok content ∧ readExact content chunk.offset chunk.len = .ok bytes))
      (fun _ => Growing env before l stands first written) := by
  refine Triple.bind (Q := fun _ => Growing env before l stands first written) ?_ fun _ => ?_
  · refine orFail_triple (readDisk_grows.strengthen fun r w holds => ?_)
    cases r <;> exact holds.1
  · refine orFail_triple (readDisk_grows.strengthen fun result w holds => ?_)
    cases result with
    | error error => exact holds.1
    | ok bytes =>
        refine ⟨holds.1, fun apart => ?_⟩
        have found := holds.2 bytes rfl
        have same : contentAt w.disk r = contentAt before r := by
          unfold contentAt
          rw [holds.1.elsewhere r apart]
        rw [same] at found
        cases content : contentAt before r with
        | error error =>
            rw [content] at found
            cases found
        | ok bytes =>
            rw [content] at found
            exact ⟨bytes, rfl, found⟩

theorem cleanupPartial_cleans (removes : env.Removes) {entry : Text} (site : Site before path m l) {E : ClientError → World ρ → Prop} :
    Triple (Growing env before l stands first written) (cleanupPartial env entry path) (fun _ => Cleaned before m l)
      E := by
  refine Triple.bind (Q := fun _ => Growing env before l stands first written)
    (note_triple fun w growing => growing.note _) fun _ => ?_
  have cleared : ∀ w : World ρ, Growing env before l stands first written w → ∀ q, q ≠ l → q ≠ m →
      w.disk.node q = before.node q := fun w growing q other _ => growing.elsewhere q other
  refine Triple.bind (Q := fun _ => Cleaned before m l) ?_ fun _ => Triple.ret fun _ cleaned => cleaned
  refine changeDisk_triple (fun w error growing refused => ?_) fun w a disk growing done => ?_
  · rcases refused with ⟨tick, fault⟩ | refused
    · rw [removes] at fault
      cases fault
    · have named := (growing.sameWays site).resolve site.named
      unfold Tree.removeFile at refused
      rw [named] at refused
      refine ⟨?_, cleared w growing⟩
      cases here : w.disk.node m with
      | none => exact here
      | some node =>
          exfalso
          simp only [here] at refused
          have directory := growing.not_directory site
          cases node with
          | directory => exact directory here
          | file | symlink | special => cases refused
  · have named := (growing.sameWays site).resolve site.named
    unfold Tree.removeFile at done
    rw [named] at done
    have directory := growing.not_directory site
    cases here : w.disk.node m with
    | none =>
        simp only [here] at done
        cases done
    | some node =>
        have erased : disk = w.disk.erase m := by
          simp only [here] at done
          cases node with
          | directory => exact absurd here directory
          | file | symlink | special =>
              cases done
              rfl
        refine ⟨?_, fun q other elsewhere => ?_⟩
        · show disk.node m = none
          rw [erased, w.disk.node_erase directory, if_pos rfl]
        · show disk.node q = before.node q
          rw [erased, w.disk.node_erase directory, if_neg elsewhere]
          exact growing.elsewhere q other

/-- What fails while the partial file grows is followed by its removal. -/
theorem orCleanup_cleans {entry : Text} (site : Site before path m l) {x : Program ρ α} {P : World ρ → Prop}
    {Q : α → World ρ → Prop} {C : Prop}
    (grows : Triple P x Q fun _ w => Growing env before l stands first written w ∧ C) :
    Triple P (orCleanup env entry path x) Q fun _ w => (env.Removes → Cleaned before m l w) ∧ C := by
  refine Triple.bind (Q := fun r w => Outcome Q (fun _ w => Growing env before l stands first written w ∧ C) (r, w))
    (Triple.attempt grows) fun r => ?_
  cases r with
  | ok a => exact Triple.ret fun _ holds => holds
  | error error =>
      refine Triple.assume (fun _ holds => holds.2) fun known => ?_
      by_cases removes : env.Removes
      · refine Triple.bind ((cleanupPartial_cleans removes site).weaken fun _ holds => holds.1) fun _ => ?_
        exact Triple.throw fun _ cleaned => ⟨fun _ => cleaned, known⟩
      · refine Triple.bind (Q := fun _ _ => True) (E := fun _ w => (env.Removes → Cleaned before m l w) ∧ C)
          (Triple.trivially (fun _ _ => trivial) fun _ _ => ⟨fun sound => absurd sound removes, known⟩) fun _ => ?_
        exact Triple.throw fun _ _ => ⟨fun sound => absurd sound removes, known⟩

/-- Only a fault of the disk stops a write. -/
theorem writePartial_grows {entry : Text} (site : Site before path m l) (bytes : Bytes) (tick : Nat) :
    Triple (fun w => Growing env before l stands first written w ∧ w.tick = tick)
      (writePartial env entry path l bytes)
      (fun _ w => (Growing env before l stands first (written ++ bytes) w ∧ w.tick = tick + 1) ∧
        env.diskFault .write path tick = none)
      (fun _ w => (env.Removes → Cleaned before m l w) ∧ env.diskFault .write path tick ≠ none) := by
  have grows : Triple (fun w => Growing env before l stands first written w ∧ w.tick = tick)
      (note (.localChange entry .partialFile path) >>= fun _ =>
        orFail (changeDisk env .write path fun now disk => .ok ((), disk.append now l bytes)))
      (fun _ w => (Growing env before l stands first (written ++ bytes) w ∧ w.tick = tick + 1) ∧
        env.diskFault .write path tick = none)
      (fun _ w => Growing env before l stands first written w ∧ env.diskFault .write path tick ≠ none) := by
    refine Triple.bind (Q := fun _ w => Growing env before l stands first written w ∧ w.tick = tick)
      (note_triple fun w holds => ⟨holds.1.note _, holds.2⟩) fun _ => orFail_triple ?_
    intro w ⟨growing, moment⟩
    subst moment
    unfold changeDisk Env.faulty
    cases fault : env.diskFault .write path w.tick with
    | none => exact ⟨⟨growing.append bytes, rfl⟩, rfl⟩
    | some error => exact ⟨growing.advance, by simp⟩
  exact orCleanup_cleans site grows

end Steps

/-- The assembly ends where a chunk is to be read again from a file that is not open: all chunks before it have been
fetched and written. -/
def EndsUnopened (env : Env ρ) (path : PathBuf) (chunks : List LocalChunk) (fetched : List (Text × Bytes)) :
    Nat → List Text → Prop
  | _, [] => False
  | tick, hash :: rest => match findLast LocalChunk.hash hash chunks, findLast Prod.fst hash fetched with
    | some _, _ => True
    | none, none => False
    | none, some _ => env.diskFault .write (partialPath path) tick = none ∧
        EndsUnopened env path chunks fetched (tick + 1) rest

/-- The bytes that the assembly takes for a chunk: those of the open file where it is held there, or those that were
fetched for it. -/
def Supplied (before : Tree) (reader : Option Location) (l : Location) (chunks : List LocalChunk)
    (fetched : List (Text × Bytes)) (hash : Text) (bytes : Bytes) : Prop :=
  match findLast LocalChunk.hash hash chunks with
  | some chunk => ∃ r, reader = some r ∧ (r ≠ l → ∃ content, contentAt before r = .ok content ∧
      readExact content chunk.offset chunk.len = .ok bytes)
  | none => ∃ pair, findLast Prod.fst hash fetched = some pair ∧ pair.2 = bytes

section Chunks

variable {env : Env ρ} {before : Tree} {path : PathBuf} {m l : Location} {stands : Prop} {first : Nat}
  {written : Bytes} {reader : Option Location} {chunks : List LocalChunk} {fetched : List (Text × Bytes)}

/-- A chunk fails without a removal only where the file that holds it is not open. -/
theorem chunkBytes_grows {entry : Text} (site : Site before (partialPath path) m l) (hash : Text) (tick : Nat) :
    Triple (fun w => Growing env before l stands first written w ∧ (reader = none → w.tick = tick))
      (chunkBytes env entry path reader chunks fetched hash)
      (fun bytes w => (Growing env before l stands first written w ∧ (reader = none → w.tick = tick)) ∧
        Supplied before reader l chunks fetched hash bytes)
      (fun _ w => (reader = none ∧ (findLast LocalChunk.hash hash chunks).isSome = true ∧
          Growing env before l stands first written w) ∨
        ((env.Removes → Cleaned before m l w) ∧ (reader = none → findLast LocalChunk.hash hash chunks = none ∧
          findLast Prod.fst hash fetched = none))) := by
  unfold chunkBytes Supplied
  cases held : findLast LocalChunk.hash hash chunks with
  | some chunk =>
      cases reader with
      | none => exact Triple.throw fun w holds => Or.inl ⟨rfl, rfl, holds.1⟩
      | some r =>
          have reads : Triple (fun w => Growing env before l stands first written w ∧ (some r = none → w.tick = tick))
              (readLocalChunk env path r chunk) _
              (fun _ w => Growing env before l stands first written w ∧ True) :=
            readLocalChunk_grows.conseq (fun w holds => holds.1) (fun _ _ => id) fun _ _ grows => ⟨grows, trivial⟩
          refine (orCleanup_cleans site reads).conseq (fun _ => id)
            (fun bytes w holds => ⟨⟨holds.1, fun none => by cases none⟩, r, rfl, holds.2⟩)
            fun _ w cleaned => Or.inr ⟨cleaned.1, fun none => by cases none⟩
  | none =>
      cases received : findLast Prod.fst hash fetched with
      | some pair =>
          have fits : Triple (fun w => Growing env before l stands first written w ∧ (reader = none → w.tick = tick))
              (pure pair.2 : Program ρ Bytes) (fun bytes w =>
                (Growing env before l stands first written w ∧ (reader = none → w.tick = tick)) ∧
                  ∃ other, some pair = some other ∧ other.2 = bytes) (fun _ _ => False) :=
            Triple.ret fun w holds => ⟨holds, pair, rfl, rfl⟩
          cases reader <;> exact fits.conseq (fun _ => id) (fun _ _ => id) fun _ _ => False.elim
      | none =>
          have missing : Triple (fun w => Growing env before l stands first written w ∧ (reader = none → w.tick = tick))
              (Proc.throw (chunkMissing hash) : Program ρ Bytes) (fun _ _ => False)
              (fun _ w => Growing env before l stands first written w ∧ True) :=
            Triple.throw fun w holds => ⟨holds.1, trivial⟩
          have cleaned := @orCleanup_cleans _ _ _ _ _ _ _ _ _ _ entry site _ _ _ _ missing
          cases reader <;> exact cleaned.conseq (fun _ => id) (fun _ _ => False.elim)
            fun _ w gone => Or.inr ⟨gone.1, fun _ => ⟨rfl, rfl⟩⟩

/-- A chunk that is supplied without an open file has been fetched. -/
theorem endsUnopened_cons {hash : Text} {bytes : Bytes} (supplied : Supplied before none l chunks fetched hash bytes)
    (tick : Nat) (rest : List Text) : EndsUnopened env path chunks fetched tick (hash :: rest) ↔
      env.diskFault .write (partialPath path) tick = none ∧ EndsUnopened env path chunks fetched (tick + 1) rest := by
  unfold Supplied at supplied
  rw [EndsUnopened]
  cases held : findLast LocalChunk.hash hash chunks with
  | some chunk =>
      rw [held] at supplied
      obtain ⟨r, none, -⟩ := supplied
      cases none
  | none =>
      rw [held] at supplied
      obtain ⟨pair, received, -⟩ := supplied
      rw [received]

/-- Where no file is open, the moment of a write is known. -/
theorem writePartial_ticks {entry : Text} (site : Site before (partialPath path) m l) (bytes : Bytes) (tick : Nat) :
    Triple (fun w => Growing env before l stands first written w ∧ (reader = none → w.tick = tick))
      (writePartial env entry (partialPath path) l bytes)
      (fun _ w => (Growing env before l stands first (written ++ bytes) w ∧ (reader = none → w.tick = tick + 1)) ∧
        (reader = none → env.diskFault .write (partialPath path) tick = none))
      (fun _ w => (env.Removes → Cleaned before m l w) ∧
        (reader = none → env.diskFault .write (partialPath path) tick ≠ none)) := by
  refine Triple.fix fun start holds => ?_
  have step := @writePartial_grows _ env before _ m l stands first written entry site bytes start.tick
  refine step.conseq (fun w equal => ?_) (fun _ w grown => ?_) fun _ w cleaned => ?_
  · rw [equal]
    exact ⟨holds.1, rfl⟩
  · refine ⟨⟨grown.1.1, fun unopened => ?_⟩, fun unopened => ?_⟩
    · rw [grown.1.2, holds.2 unopened]
    · rw [← holds.2 unopened]
      exact grown.2
  · refine ⟨cleaned.1, fun unopened => ?_⟩
    rw [← holds.2 unopened]
    exact cleaned.2

theorem writeChunks_grows {entry : Text} (site : Site before (partialPath path) m l) (hashes : List Text) (tick : Nat) :
    Triple (fun w => Growing env before l stands first written w ∧ (reader = none → w.tick = tick))
      (writeChunks env entry path reader chunks fetched l hashes)
      (fun content w => (Growing env before l stands first (written ++ content) w ∧
        ∃ used, List.Forall₂ (Supplied before reader l chunks fetched) hashes used ∧ used.flatten = content) ∧
        ¬ (reader = none ∧ EndsUnopened env path chunks fetched tick hashes))
      (fun _ w => (reader = none ∧ EndsUnopened env path chunks fetched tick hashes ∧
          ∃ more, Growing env before l stands first (written ++ more) w) ∨
        ((env.Removes → Cleaned before m l w) ∧ ¬ (reader = none ∧ EndsUnopened env path chunks fetched tick hashes))) := by
  induction hashes generalizing written tick with
  | nil =>
      refine Triple.ret fun w holds => ⟨⟨?_, [], .nil, rfl⟩, fun ends => ends.2⟩
      rw [List.append_nil]
      exact holds.1
  | cons hash rest ih =>
      refine Triple.bind (Q := fun bytes w => (Growing env before l stands first written w ∧
          (reader = none → w.tick = tick)) ∧ Supplied before reader l chunks fetched hash bytes)
        ((chunkBytes_grows site hash tick).conseq (fun _ => id) (fun _ _ => id) fun _ w failed => ?_)
        fun bytes => Triple.assume (fun _ holds => holds.2) fun supplied => ?_
      · rcases failed with ⟨unopened, held, growing⟩ | ⟨cleaned, absent⟩
        · refine Or.inl ⟨unopened, ?_, [], ?_⟩
          · obtain ⟨chunk, held⟩ := Option.isSome_iff_exists.mp held
            rw [EndsUnopened, held]
            trivial
          · rw [List.append_nil]
            exact growing
        · refine Or.inr ⟨cleaned, fun ends => ?_⟩
          obtain ⟨held, received⟩ := absent ends.1
          have false := ends.2
          rw [EndsUnopened, held, received] at false
          exact false
      · have ends : reader = none → (EndsUnopened env path chunks fetched tick (hash :: rest) ↔
            env.diskFault .write (partialPath path) tick = none ∧
              EndsUnopened env path chunks fetched (tick + 1) rest) := by
          rintro rfl
          exact endsUnopened_cons supplied tick rest
        refine Triple.bind (Q := fun _ w => (Growing env before l stands first (written ++ bytes) w ∧
            (reader = none → w.tick = tick + 1)) ∧ (reader = none → env.diskFault .write (partialPath path) tick = none))
          ((writePartial_ticks site bytes tick).conseq (fun w holds => holds.1) (fun _ _ => id)
            fun _ w cleaned => Or.inr ⟨cleaned.1, fun both => ?_⟩) fun _ =>
          Triple.assume (fun _ grown => grown.2) fun sound => ?_
        · exact cleaned.2 both.1 ((ends both.1).mp both.2).1
        · have tail := (@ih (written ++ bytes) (tick + 1)).weaken
            (U := fun w => (Growing env before l stands first (written ++ bytes) w ∧
              (reader = none → w.tick = tick + 1)) ∧ (reader = none → env.diskFault .write (partialPath path) tick = none))
            fun w grown => grown.1
          refine Triple.bind (tail.conseq (fun _ => id) (fun others w grown => ?_) fun _ w failed => ?_) fun others =>
            Triple.ret (P := fun w => (Growing env before l stands first (written ++ (bytes ++ others)) w ∧
              ∃ used, List.Forall₂ (Supplied before reader l chunks fetched) (hash :: rest) used ∧
                used.flatten = bytes ++ others) ∧
              ¬ (reader = none ∧ EndsUnopened env path chunks fetched tick (hash :: rest))) fun _ => id
          · obtain ⟨⟨growing, used, every, whole⟩, never⟩ := grown
            refine ⟨⟨by rwa [List.append_assoc] at growing, bytes :: used, .cons supplied every, ?_⟩, fun both => ?_⟩
            · rw [List.flatten_cons, whole]
            · exact never ⟨both.1, ((ends both.1).mp both.2).2⟩
          · rcases failed with ⟨unopened, later, more, growing⟩ | ⟨cleaned, never⟩
            · refine Or.inl ⟨unopened, (ends unopened).mpr ⟨sound unopened, later⟩, bytes ++ more, ?_⟩
              rwa [List.append_assoc] at growing
            · exact Or.inr ⟨cleaned, fun both => never ⟨both.1, ((ends both.1).mp both.2).2⟩⟩

theorem replaced_of_rename (site : Site before (partialPath path) m l) {w : World ρ}
    (growing : Growing env before l stands first written w) {moved : Tree}
    (renamed : w.disk.rename (partialPath path) path = .ok moved) :
    Replaced env before m l stands first written path { w.advance with disk := moved } := by
  have same := growing.sameWays site
  unfold Tree.rename at renamed
  rw [same.resolve site.named] at renamed
  cases target : w.disk.resolve false path with
  | error error =>
      rw [target] at renamed
      cases renamed
  | ok q =>
      rw [target] at renamed
      dsimp only at renamed
      have back := same.symm.resolve target
      cases here : w.disk.node m with
      | none =>
          rw [here] at renamed
          cases renamed
      | some node =>
          rw [here] at renamed
          cases node with
          | directory => cases renamed
          | file content time | symlink content time | special =>
              dsimp only at renamed
              split at renamed
              · cases renamed
              next free =>
                refine ⟨w, q, _, growing, back, here, by simp, free, ?_⟩
                split at renamed
                next equal =>
                  cases renamed
                  rw [if_pos equal]
                next other =>
                  cases renamed
                  rw [if_neg other]

theorem finishPartial_replaces {entry : Text} (site : Site before (partialPath path) m l) :
    Triple (Growing env before l stands first written) (finishPartial env entry path)
      (fun _ => Replaced env before m l stands first written path) (fun _ w => env.Removes → Cleaned before m l w) := by
  have grows : Triple (Growing env before l stands first written)
      (orFail (readDisk env .flush (partialPath path) fun _ => .ok ()) >>= fun _ =>
        note (.localChange entry .file path) >>= fun _ =>
        orFail (changeDisk env .rename path fun _ disk =>
          (disk.rename (partialPath path) path).map fun moved => ((), moved)))
      (fun _ => Replaced env before m l stands first written path)
      (fun _ w => Growing env before l stands first written w ∧ True) := by
    refine Triple.bind (Q := fun _ => Growing env before l stands first written) ?_ fun _ => ?_
    · refine orFail_triple (readDisk_grows.strengthen fun r w holds => ?_)
      cases r with
      | ok a => exact holds.1
      | error error => exact ⟨holds.1, trivial⟩
    refine Triple.bind (Q := fun _ => Growing env before l stands first written)
      (note_triple fun w growing => growing.note _) fun _ => orFail_triple ?_
    refine changeDisk_triple (fun w error growing _ => ⟨growing.advance, trivial⟩) fun w a disk growing done => ?_
    cases renamed : w.disk.rename (partialPath path) path with
    | error error =>
        rw [renamed] at done
        cases done
    | ok moved =>
        rw [renamed] at done
        cases done
        exact replaced_of_rename site growing renamed
  exact (orCleanup_cleans site grows).conseq (fun _ => id) (fun _ _ => id) fun _ _ cleaned => cleaned.1

end Chunks

/-- The assembly has opened what it reads again and has created the partial file. -/
structure Creates (env : Env ρ) (plan : FilePlan) (w : World ρ) (reader : Option Location) (l : Location)
    (last : World ρ) : Prop where
  steps : ∃ next, openLocal env plan.localPath plan.localChunks w = (.ok reader, next) ∧
    createPartial env plan.entry.path (partialPath plan.localPath) next = (.ok l, last)

section Creation

variable {env : Env ρ} {plan : FilePlan} {fetched : List (Text × Bytes)} {w last : World ρ}
  {reader : Option Location} {l : Location}

/-- Opening only looks. -/
theorem openLocal_looks (path : PathBuf) (chunks : List LocalChunk) :
    Triple (· = w) (openLocal env path chunks)
      (fun reader next => (next.disk = w.disk ∧ w.tick ≤ next.tick) ∧
        ∀ r, reader = some r → w.disk.resolve true path = .ok r)
      (fun _ next => next.disk = w.disk) := by
  unfold openLocal
  refine Triple.ite (fun _ => Triple.ret fun next equal => ?_) fun _ => ?_
  · rw [equal]
    exact ⟨⟨rfl, Nat.le_refl _⟩, fun r none => by cases none⟩
  · refine Triple.bind (Q := fun result next => (next.disk = w.disk ∧ w.tick ≤ next.tick) ∧
      ∀ r, result = .ok r → w.disk.resolve true path = .ok r) ?_ fun result => ?_
    · refine readDisk_triple fun next equal => ?_
      rw [equal]
      refine ⟨⟨rfl, Nat.le_succ _⟩, fun r returned => ?_⟩
      unfold Env.faulty at returned
      split at returned
      · cases returned
      · dsimp only [bind, Except.bind] at returned
        cases known : w.disk.metadata true path with
        | error error =>
            rw [known] at returned
            cases returned
        | ok node =>
            rw [known] at returned
            cases node with
            | special => cases returned
            | file | symlink | directory => exact returned
    · cases result with
      | error error =>
          refine Triple.ite (fun _ => Triple.ret fun next holds => ⟨holds.1, fun r none => by cases none⟩) fun _ => ?_
          exact Triple.throw fun next holds => holds.1.1
      | ok r =>
          refine Triple.ret fun next holds => ⟨holds.1, fun other equal => ?_⟩
          cases equal
          exact holds.2 r rfl

theorem createPartial_grows {entry : Text} {path : PathBuf} {before : Tree} {first : Nat} :
    Triple (fun w : World ρ => w.disk = before ∧ first ≤ w.tick) (createPartial env entry path)
      (fun l next => (∃ m, Site before path m l) ∧ Growing env before l (next.disk.node l ≠ none) first [] next)
      (fun _ next => next.disk = before) := by
  refine Triple.bind (Q := fun _ w => w.disk = before ∧ first ≤ w.tick) (note_triple fun _ holds => holds) fun _ => ?_
  refine orFail_triple (changeDisk_triple (fun w error holds _ => holds.1) fun w l disk holds done => ?_)
  obtain ⟨equal, later⟩ := holds
  subst equal
  unfold Tree.create at done
  cases followed : w.disk.resolve true path with
  | error error =>
      rw [followed] at done
      cases done
  | ok q =>
      rw [followed] at done
      have plain := (Tree.resolve_settled followed).followed
      obtain ⟨m, named⟩ := w.disk.resolve_entry followed
      dsimp only at done
      have free : Leaf (w.disk.node q) ∧ (q, w.disk.put q (.file [] (env.clock w.tick))) = (l, disk) := by
        cases here : w.disk.node q with
        | none =>
            rw [here] at done
            exact ⟨trivial, Except.ok.inj done⟩
        | some node =>
            rw [here] at done
            cases node with
            | directory | special => cases done
            | symlink target time => exact absurd here (plain target time)
            | file content time => exact ⟨trivial, Except.ok.inj done⟩
      obtain ⟨leaf, equal⟩ := free
      cases equal
      refine ⟨⟨m, named, followed, leaf⟩, w.disk.put_workingDirectory l _, fun p other => w.disk.node_put_ne other,
        fun node found => ?_, id, Nat.le_succ_of_le later⟩
      by_cases placeable : w.disk.Placeable l
      · have placed : (w.disk.put l (.file [] (env.clock w.tick))).node l = _ := w.disk.node_put placeable l
        rw [if_pos rfl] at placed
        exact ⟨w.tick, later, Option.some.inj (found.symm.trans placed)⟩
      · have same : w.disk.put l (.file [] (env.clock w.tick)) = w.disk := dif_neg placeable
        have old : w.disk.node l = some node := by
          rw [← found]
          show _ = (w.disk.put l (.file [] (env.clock w.tick))).node l
          rw [same]
        refine absurd (w.disk.placeable_of_present ?_ ?_) placeable
        · rw [old]
          exact Option.some_ne_none _
        · intro directory
          rw [directory] at leaf
          exact leaf

/-- What has come of an assembly that has created its partial file. -/
structure AssemblyEnd (env : Env ρ) (plan : FilePlan) (fetched : List (Text × Bytes)) (w : World ρ)
    (reader : Option Location) (m l : Location) (last : World ρ) : Prop where
  creates : Creates env plan w reader l last
  site : Site w.disk (partialPath plan.localPath) m l
  opened : ∀ r, reader = some r → w.disk.resolve true plan.localPath = .ok r
  outcome : Outcome
    (fun result next => ¬ (reader = none ∧ EndsUnopened env plan.localPath plan.localChunks fetched last.tick
        plan.entry.chunkHashes) ∧ ∃ used, result = (used.flatten.length, env.digest used.flatten) ∧
      List.Forall₂ (Supplied w.disk reader l plan.localChunks fetched) plan.entry.chunkHashes used ∧
      Replaced env w.disk m l (last.disk.node l ≠ none) w.tick used.flatten plan.localPath next)
    (fun _ next => (reader = none ∧ EndsUnopened env plan.localPath plan.localChunks fetched last.tick
        plan.entry.chunkHashes ∧ ∃ more, Growing env w.disk l (last.disk.node l ≠ none) w.tick more next) ∨
      ((env.Removes → Cleaned w.disk m l next) ∧ ¬ (reader = none ∧ EndsUnopened env plan.localPath plan.localChunks fetched last.tick
        plan.entry.chunkHashes)))
    (assembleFile env fetched plan w)

theorem assembly_end (creates : Creates env plan w reader l last) : ∃ m, AssemblyEnd env plan fetched w reader m l last := by
  obtain ⟨next, opened, created⟩ := creates.steps
  have looked := @openLocal_looks _ env w plan.localPath plan.localChunks w rfl
  rw [opened] at looked
  have grown := @createPartial_grows _ env plan.entry.path (partialPath plan.localPath) w.disk w.tick next looked.1
  rw [created] at grown
  obtain ⟨⟨m, site⟩, growing⟩ := grown
  refine ⟨m, creates, site, looked.2, ?_⟩
  have equal : assembleFile env fetched plan w = (writeChunks env plan.entry.path plan.localPath reader
      plan.localChunks fetched l plan.entry.chunkHashes >>= fun content =>
        finishPartial env plan.entry.path plan.localPath >>= fun _ =>
          pure (content.length, env.digest content)) last := by
    unfold assembleFile
    rw [Proc.bind_apply, opened]
    dsimp only
    rw [Proc.bind_apply, created]
  rw [equal]
  have chunks := @writeChunks_grows _ env w.disk plan.localPath m l (last.disk.node l ≠ none) w.tick [] reader
    plan.localChunks fetched plan.entry.path site plan.entry.chunkHashes last.tick
  refine Triple.bind (chunks.conseq (fun _ => id) (fun _ _ => id) fun _ next failed => ?_)
    (fun content => Triple.assume (C := (∃ used, List.Forall₂ (Supplied w.disk reader l plan.localChunks fetched)
        plan.entry.chunkHashes used ∧ used.flatten = content) ∧ ¬ (reader = none ∧ EndsUnopened env plan.localPath
        plan.localChunks fetched last.tick plan.entry.chunkHashes)) (fun _ holds => ⟨holds.1.2, holds.2⟩)
      fun known => ?_) last ⟨growing, fun _ => rfl⟩
  · rcases failed with ⟨unopened, ends, more, grown⟩ | cleaned
    · exact Or.inl ⟨unopened, ends, more, grown⟩
    · exact Or.inr cleaned
  · obtain ⟨⟨used, supplied, rfl⟩, never⟩ := known
    have finish := @finishPartial_replaces _ env w.disk plan.localPath m l (last.disk.node l ≠ none) w.tick used.flatten
      plan.entry.path site
    refine Triple.bind (finish.conseq (fun next holds => holds.1.1) (fun _ _ => id) fun _ next cleaned => ?_) fun _ =>
      Triple.ret fun next replaced => ⟨never, used, rfl, supplied, replaced⟩
    exact Or.inr ⟨cleaned, never⟩

/-- An assembly that has not created its partial file has changed nothing. -/
theorem assembly_refused (never : ∀ reader l last, ¬ Creates env plan w reader l last) :
    ∃ error, (assembleFile env fetched plan w).1 = .error error ∧ (assembleFile env fetched plan w).2.disk = w.disk := by
  have looked := @openLocal_looks _ env w plan.localPath plan.localChunks w rfl
  unfold assembleFile
  rw [Proc.bind_apply]
  rcases opened : openLocal env plan.localPath plan.localChunks w with ⟨reader, next⟩
  rw [opened] at looked
  cases reader with
  | error error => exact ⟨error, rfl, looked⟩
  | ok reader =>
      dsimp only
      have grown := @createPartial_grows _ env plan.entry.path (partialPath plan.localPath) w.disk w.tick next looked.1
      rw [Proc.bind_apply]
      rcases created : createPartial env plan.entry.path (partialPath plan.localPath) next with ⟨result, last⟩
      rw [created] at grown
      cases result with
      | error error => exact ⟨error, rfl, grown⟩
      | ok l => exact absurd ⟨next, opened, created⟩ (never reader l last)

end Creation

end AeordbSync

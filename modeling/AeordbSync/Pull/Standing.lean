import AeordbSync.Pull.Cleanly
import AeordbSync.Pull.Content
import AeordbSync.Push.UploadRules

namespace AeordbSync
open Characters OsPath FileSystem Effect

variable {ρ α : Type} {env : Env ρ}

/-- The disk is confined, and this stands at the location. -/
structure Standing (linked : Location → Prop) (b : Location) (start : Tree) (q : Location) (node : Option Node)
    (t : Tree) : Prop extends Tree.Confined linked b start t where
  here : t.node q = node

/-- The location is not on the way to the place of the path. -/
def PullContext.OffWay (ctx : PullContext) (b q : Location) (path : Text) : Prop :=
  ∀ way rest, solid (ctx.segments path) = way ++ rest → rest ≠ [] → place b way ≠ q

/-- Nothing that is done for the path touches the location. -/
structure PullContext.Passes (ctx : PullContext) (b q : Location) (path : Text) : Prop where
  ways : ctx.OffWay b q path
  apart : place b (ctx.segments path) ≠ q
  partly : place b (pushText (ctx.segments path) partialSuffix) ≠ q

/-- The chunks were cut from the file that stands here. -/
def CutFrom (env : Env ρ) (config : BlobConfig) (node : Option Node) (chunks : List LocalChunk) : Prop :=
  chunks = [] ∨ ∃ content time, node = some (.file content time) ∧
    chunks = localChunksFrom env config 0 (chunksOf config.chunkSize content)

theorem of_faulty {call : DiskCall} {path : PathBuf} {tick : Nat} {result : Except IoError α} {a : α}
    (returned : env.faulty call path tick result = .ok a) : result = .ok a := by
  unfold Env.faulty at returned
  split at returned
  · cases returned
  · exact returned

section Steps

variable {I : Tree → Prop}

/-- What a call has read, it has read from a disk like this. -/
theorem keeping_read {call : DiskCall} {path : PathBuf} {f : Tree → Except IoError α} :
    Keeping (fun w : World ρ => I w.disk) (readDisk env call path f)
      fun r => ∀ a, r = .ok a → ∃ t, I t ∧ f t = .ok a :=
  readDisk_triple fun w before => ⟨before, fun _ returned => ⟨w.disk, before, of_faulty returned⟩⟩

end Steps

section Cuts

variable {config : BlobConfig} {held : LocalChunk}

/-- A local chunk tells where its bytes are. -/
theorem mem_localChunksFrom {pieces : List Bytes} {offset : Nat}
    (inside : held ∈ localChunksFrom env config offset pieces) : ∃ front piece back, pieces = front ++ piece :: back ∧
      held = ⟨chunkHash env.digest config.chunkHashPrefix piece, offset + front.flatten.length, piece.length⟩ := by
  induction pieces generalizing offset with
  | nil => cases inside
  | cons first rest ih =>
      rcases List.mem_cons.mp inside with rfl | later
      · exact ⟨[], first, rest, rfl, rfl⟩
      · obtain ⟨front, piece, back, rfl, rfl⟩ := ih later
        refine ⟨first :: front, piece, back, rfl, ?_⟩
        rw [List.flatten_cons, List.length_append, Nat.add_assoc]

/-- What is read again for a chunk has its hash, as long as the file is the same. -/
theorem CutFrom.chunk {node : Option Node} {chunks : List LocalChunk} (cut : CutFrom env config node chunks)
    (inside : held ∈ chunks) {content bytes : Bytes} {time : Int} (here : node = some (.file content time))
    (read : readExact content held.offset held.len = .ok bytes) :
    chunkHash env.digest config.chunkHashPrefix bytes = held.hash := by
  rcases cut with rfl | ⟨original, moment, known, rfl⟩
  · cases inside
  rw [here, Option.some.injEq, Node.file.injEq] at known
  obtain ⟨rfl, -⟩ := known
  obtain ⟨front, piece, back, pieces, rfl⟩ := mem_localChunksFrom inside
  have whole : content = front.flatten ++ (piece ++ back.flatten) := by
    have joined := congrArg List.flatten pieces
    rwa [chunksOf, chunksFrom_flatten, List.nil_append, List.flatten_append, List.flatten_cons] at joined
  unfold readExact at read
  split at read
  · cases read
  · cases read
    rw [Nat.zero_add, whole, List.drop_left, List.take_left]

end Cuts

section Entries

variable {linked : Location → Prop} {b q : Location} {start : Tree} {node : Option Node} {ctx : PullContext}
  {path : Text} (anchored : Tree.Anchored start ctx.relationship.localBase b)

section

include anchored

/-- Making the directories above a place leaves what is not on the way. -/
theorem createParent_stands (stays : StaysBelow linked b false b (ctx.segments path)) (off : ctx.OffWay b q path) :
    Keeping (fun w : World ρ => Standing linked b start q node w.disk)
      (createParent env path (ctx.localPathOf path)) fun _ => True := by
  unfold createParent
  split
  · exact Keeping.ret trivial
  next above found =>
    refine keeping_createDirs _ fun front before disk next standing made => ?_
    rw [List.reverse_reverse, components_parent found, ctx.localPathOf_eq] at before
    obtain ⟨l, reached, absent, touched⟩ := Tree.createDir_touches made
    obtain ⟨way, rest, split, more, rfl⟩ :=
      standing.createDir_place anchored (ctx.segments_ne path) stays before reached absent
    refine ⟨standing.toConfined.createDir (fun l reached absent => ?_) made, ?_⟩
    · exact standing.createDir_leads anchored (ctx.segments_ne path) stays before reached absent
    · rw [touched q (off way rest split more).symm]
      exact standing.here

theorem removeLocal_stands {entry : Text} (stays : StaysBelow linked b false b (ctx.segments path))
    (apart : place b (ctx.segments path) ≠ q) : Keeping (fun w : World ρ => Standing linked b start q node w.disk)
      (removeLocal env entry (ctx.localPathOf path)) fun _ => True := by
  refine Keeping.bind keeping_note fun _ _ => (keeping_changeDisk (F := fun _ => True) ?_).weaken fun _ _ => trivial
  intro _ disk _ next standing done
  obtain ⟨left, removed, equal⟩ := map_eq_ok done
  cases equal
  obtain ⟨l, reached, -, touched⟩ := Tree.removeFile_touches removed
  rw [ctx.localPathOf_eq] at reached
  obtain ⟨rfl, within⟩ := standing.resolve_below anchored (ctx.segments_ne path) stays reached
  refine ⟨⟨standing.toConfined.removeFile (fun l found => ?_) removed, ?_⟩, trivial⟩
  · rw [ctx.localPathOf_eq] at found
    exact (standing.resolve_below anchored (ctx.segments_ne path) stays found).2
  · rw [touched q apart.symm]
    exact standing.here

/-- The chunks of a local file are cut from what stands at its place. -/
theorem hashLocalFileChunks_cuts {config : BlobConfig} {wanted : Prop}
    (own : wanted → StaysBelow linked b true b (ctx.segments path) ∧ place b (ctx.segments path) = q) :
    Keeping (fun w : World ρ => Standing linked b start q node w.disk)
      (hashLocalFileChunks env config (ctx.localPathOf path))
      fun r => ∀ chunks, r = .ok chunks → wanted → CutFrom env config node chunks := by
  refine Keeping.bind keeping_readDisk fun opened _ => ?_
  cases opened with
  | error error =>
      refine Keeping.ret fun chunks returned _ => ?_
      split at returned
      · cases returned
        exact Or.inl rfl
      · cases returned
  | ok _ =>
      refine Keeping.ite (fun _ => Keeping.ret fun chunks returned _ => ?_) fun _ => ?_
      · cases returned
        exact Or.inl rfl
      refine Keeping.bind keeping_read fun read known => ?_
      cases read with
      | error error => exact Keeping.ret fun chunks returned => by cases returned
      | ok content =>
          refine Keeping.ret fun chunks returned wants => ?_
          cases returned
          obtain ⟨t, standing, read⟩ := known content rfl
          obtain ⟨stays, rfl⟩ := own wants
          obtain ⟨l, time, reached, here⟩ := Tree.read_eq_ok read
          rw [ctx.localPathOf_eq] at reached
          obtain ⟨rfl, -⟩ := standing.resolve_below anchored (ctx.segments_ne path) stays reached
          exact Or.inr ⟨content, time, standing.here.symm.trans here, rfl⟩

end

/-- The pull fetches the file of the entry. -/
def PullContext.fetches (globMatch : Text → Text → Bool) (ctx : PullContext) (entry : RemoteSyncFileEntry) : Bool :=
  !ctx.isExcluded entry.path && ctx.accepts globMatch entry.path

/-- Planning the entry leaves the location, and the entry for the wanted path leads there. -/
structure Plannable (linked : Location → Prop) (b q : Location) (ctx : PullContext) (wanted : Text → Prop)
    (entry : RemoteSyncFileEntry) : Prop where
  stays : StaysBelow linked b false b (ctx.segments entry.path)
  off : ctx.OffWay b q entry.path
  own : wanted entry.path → StaysBelow linked b true b (ctx.segments entry.path) ∧ place b (ctx.segments entry.path) = q

/-- Every file that the pull fetches has its plan. -/
structure PlannedFor (env : Env ρ) (ctx : PullContext) (node : Option Node) (wanted : Text → Prop)
    (entries : List RemoteSyncFileEntry) (plans : List FilePlan) : Prop where
  entries : plans.map FilePlan.entry = entries.filter (ctx.fetches env.globMatch)
  localPath : ∀ plan ∈ plans, plan.localPath = ctx.localPathOf plan.entry.path
  cut : ∀ plan ∈ plans, wanted plan.entry.path → CutFrom env ctx.config node plan.localChunks

section Plans

variable {wanted : Text → Prop} {entry : RemoteSyncFileEntry} {entries : List RemoteSyncFileEntry}

theorem PlannedFor.nothing (passed : ctx.fetches env.globMatch entry = false) :
    PlannedFor env ctx node wanted [entry] [] := by
  refine ⟨?_, fun _ impossible => (List.not_mem_nil impossible).elim,
    fun _ impossible => (List.not_mem_nil impossible).elim⟩
  rw [List.filter_cons_of_neg (Bool.eq_false_iff.mp passed)]
  rfl

theorem PlannedFor.append {first others : List FilePlan} (head : PlannedFor env ctx node wanted [entry] first)
    (tail : PlannedFor env ctx node wanted entries others) :
    PlannedFor env ctx node wanted (entry :: entries) (first ++ others) := by
  refine ⟨?_, fun plan inside => ?_, fun plan inside => ?_⟩
  · rw [List.map_append, head.entries, tail.entries, ← List.filter_append, List.singleton_append]
  · exact (List.mem_append.mp inside).elim (head.localPath plan) (tail.localPath plan)
  · exact (List.mem_append.mp inside).elim (head.cut plan) (tail.cut plan)

include anchored

theorem planEntry_stands (plannable : ctx.fetches env.globMatch entry = true → Plannable linked b q ctx wanted entry) :
    Cleanly (fun s : PullState ρ => Standing linked b start q node s.world.disk) (planEntry env ctx entry)
      fun made s => Standing linked b start q node s.world.disk ∧
        PlannedFor env ctx node wanted [entry] made.toList := by
  have skips : ctx.fetches env.globMatch entry = false →
      Cleanly (fun s : PullState ρ => Standing linked b start q node s.world.disk)
        (Proc.modify PullState.skipped >>= fun _ => pure none) fun (made : Option FilePlan) s =>
          Standing linked b start q node s.world.disk ∧ PlannedFor env ctx node wanted [entry] made.toList :=
    fun passed => Cleanly.bind (Q := fun _ s => Standing linked b start q node s.world.disk)
      (Cleanly.modify fun _ standing => standing) (fun _ => Grows.ret) fun _ =>
        Cleanly.ret fun _ standing => ⟨standing, .nothing passed⟩
  refine Cleanly.ite (fun excluded => skips ?_) fun included => Cleanly.ite (fun refused => skips ?_) fun accepted => ?_
  · rw [PullContext.fetches, excluded]
    rfl
  · rw [PullContext.fetches, refused, Bool.and_false]
  have fetched : ctx.fetches env.globMatch entry = true := by
    rw [PullContext.fetches, Bool.eq_false_iff.mpr included, (Bool.not_eq_false _).mp accepted]
    rfl
  obtain ⟨stays, off, own⟩ := plannable fetched
  refine Cleanly.bind (Cleanly.of_keeping (keeping_onDisk (createParent_stands anchored stays off))) ?_ fun r => ?_
  · intro r
    cases r with
    | error error => exact Grows.bind Grows.failed fun _ => Grows.ret
    | ok _ => exact Grows.bind Grows.onDisk fun chunks => by cases chunks <;> exact Grows.ret
  cases r with
  | error error =>
      exact Cleanly.bind (Q := fun _ _ => False) Cleanly.failed (fun _ => Grows.ret) fun _ =>
        Cleanly.ret fun _ impossible => impossible.elim
  | ok _ =>
      refine Cleanly.weaken (P := fun s => Standing linked b start q node s.world.disk) ?_ fun _ holds => holds.1
      refine Cleanly.bind (Cleanly.of_keeping (keeping_onDisk (hashLocalFileChunks_cuts anchored own))) ?_ fun r => ?_
      · intro chunks
        cases chunks <;> exact Grows.ret
      have made : ∀ chunks, (wanted entry.path → CutFrom env ctx.config node chunks) →
          PlannedFor env ctx node wanted [entry] [⟨entry, ctx.localPathOf entry.path, chunks⟩] := by
        intro chunks cut
        refine ⟨?_, fun plan inside => ?_, fun plan inside => ?_⟩
        · rw [List.filter_cons_of_pos fetched]
          rfl
        · rw [List.mem_singleton.mp inside]
        · rw [List.mem_singleton.mp inside]
          exact cut
      cases r with
      | error error => exact Cleanly.ret fun _ holds => ⟨holds.1, made [] fun _ => Or.inl rfl⟩
      | ok chunks => exact Cleanly.ret fun _ holds => ⟨holds.1, made chunks (holds.2 chunks rfl)⟩

theorem planEntries_stands
    (plannable : ∀ entry ∈ entries, ctx.fetches env.globMatch entry = true → Plannable linked b q ctx wanted entry) :
    Cleanly (fun s : PullState ρ => Standing linked b start q node s.world.disk) (planEntries env ctx entries)
      fun plans s => Standing linked b start q node s.world.disk ∧ PlannedFor env ctx node wanted entries plans := by
  induction entries with
  | nil =>
      exact Cleanly.ret fun _ standing => ⟨standing, rfl, fun _ impossible => (List.not_mem_nil impossible).elim,
        fun _ impossible => (List.not_mem_nil impossible).elim⟩
  | cons entry rest ih =>
      refine Cleanly.bind (planEntry_stands anchored (plannable entry (List.mem_cons_self ..)))
        (fun _ => Grows.bind (Grows.planEntries rest) fun _ => Grows.ret) fun first => ?_
      refine Triple.assume (fun _ holds => holds.2) fun head => ?_
      refine Cleanly.weaken (P := fun s => Standing linked b start q node s.world.disk) ?_ fun _ holds => holds.1
      refine Cleanly.bind (ih fun other inside => plannable other (List.mem_cons_of_mem _ inside))
        (fun _ => Grows.ret) fun others => ?_
      exact Cleanly.ret fun _ holds => ⟨holds.1, head.append holds.2⟩

end Plans

end Entries

end AeordbSync

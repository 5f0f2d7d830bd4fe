import AeordbSync.Pull.Standing

namespace AeordbSync
open Characters OsPath FileSystem Effect

variable {ρ α : Type} {env : Env ρ}

/-- The places of a path and of its partial file are not the same. -/
def PullContext.Beside (ctx : PullContext) (b : Location) (path : Text) : Prop :=
  place b (pushText (ctx.segments path) partialSuffix) ≠ place b (ctx.segments path)

/-- What an assembly leaves behind: the bytes that were taken stand at the place of the entry, and nothing else has
changed but the place of the partial file. -/
structure InPlace (env : Env ρ) (ctx : PullContext) (b : Location) (path : Text) (w : World ρ) (used : List Bytes)
    (result : Nat × Text) (next : World ρ) : Prop where
  result : result = (used.flatten.length, env.digest used.flatten)
  here : ∃ time, next.disk.node (place b (ctx.segments path)) = some (.file used.flatten time)
  elsewhere : ∀ q, q ≠ place b (ctx.segments path) → q ≠ place b (pushText (ctx.segments path) partialSuffix) →
    next.disk.node q = w.disk.node q

section Assembly

variable {linked : Location → Prop} {b q : Location} {start : Tree} {node : Option Node} {ctx : PullContext}
  {path : Text} {plan : FilePlan} {fetched : List (Text × Bytes)} {w next : World ρ} {result : Nat × Text}

theorem PullContext.localPathOf_cut (ctx : PullContext) (path : Text) :
    ∀ segment ∈ ctx.localPathOf path, slash ∉ segment := by
  rw [ctx.localPathOf_eq]
  intro segment inside
  rcases List.mem_append.mp inside with front | back
  · have listed : segment ∈ ctx.relationship.localBase := by
      rcases openEnd_cases ctx.relationship.localBase with ⟨init, equal, same⟩ | ⟨-, same⟩
      · rw [equal]
        exact List.mem_append_left _ (same ▸ front)
      · exact same ▸ front
    exact not_mem_of_mem_splitOn listed
  · exact not_mem_of_mem_splitOn back

variable (anchored : Tree.Anchored start ctx.relationship.localBase b)
  (confined : Tree.Confined linked b start w.disk) (own : plan.localPath = ctx.localPathOf path)
  (stays : StaysBelow linked b false b (ctx.segments path))
  (apart : StaysBelow linked b true b (pushText (ctx.segments path) partialSuffix))
include anchored confined own stays apart

theorem assembleFile_lands (ran : assembleFile env fetched plan w = (.ok result, next)) :
    ∃ used, InPlace env ctx b path w used result next ∧
      (StaysBelow linked b true b (ctx.segments path) → ctx.Beside b path →
        List.Forall₂ (Taken fetched plan w.disk) plan.entry.chunkHashes used) := by
  have created : ∃ reader l last, Creates env plan w reader l last := by
    by_contra never
    obtain ⟨error, failed, -⟩ := @assembly_refused _ env plan fetched w fun reader l last creates =>
      never ⟨reader, l, last, creates⟩
    rw [ran] at failed
    cases failed
  obtain ⟨reader, l, last, creates⟩ := created
  obtain ⟨m, -, site, opened, outcome⟩ := @assembly_end _ env plan fetched w last reader l creates
  rw [ran] at outcome
  obtain ⟨-, used, equal, supplied, replaced⟩ := outcome
  have part := ctx.partialPath_eq path
  have some := ctx.partialSegments_ne path
  have there := site.named
  have led := site.followed
  rw [own, part] at there led
  obtain ⟨rfl, -⟩ := confined.resolve_below anchored some apart.unfollowed there
  obtain ⟨rfl, -⟩ := confined.resolve_below anchored some apart led
  have plain := confined.resolve_unlinked anchored some apart there
  obtain ⟨s, target, found, growing, named, present, -, free, moved⟩ := replaced.moved
  have arrives := named
  rw [own, ctx.localPathOf_eq] at arrives
  obtain ⟨rfl, -⟩ := confined.resolve_below anchored (ctx.segments_ne path) stays arrives
  have cut : ∀ segment ∈ plan.localPath, slash ∉ segment := own ▸ ctx.localPathOf_cut path
  refine ⟨used, ⟨equal, replaced_content cut site plain named replaced, fun other away beside => ?_⟩,
    fun below differs => ?_⟩
  · rw [moved]
    split
    · exact growing.elsewhere other beside
    · rw [Tree.node_put_ne _ away, Tree.node_erase_ne _ beside]
      exact growing.elsewhere other beside
  · refine supplied.imp fun hash bytes known => taken_of_supplied (fun r reads => ⟨opened r reads, ?_⟩) known
    have leads := opened r reads
    rw [own, ctx.localPathOf_eq] at leads
    obtain ⟨rfl, -⟩ := confined.resolve_below anchored (ctx.segments_ne path) below leads
    exact differs.symm

end Assembly

/-- The records of the other paths are all that may change. -/
def otherRecords (path : Text) : PullScope where
  change _ _ _ := True
  stored other := other ≠ path
  gone other := other ≠ path

theorem record_kept {path : Text} {x : PullProgram ρ α} {F : α → Prop}
    (keeps : ∀ start, PullKeeps (otherRecords path) start x F) (record : Option FileSyncMeta) :
    Keeping (fun s : PullState ρ => s.world.store.files.find path = record) x fun _ => True := by
  have same : ∀ s next : PullState ρ, s.world.store.files.find path = record →
      PullFramed (otherRecords path) s.world next.world → next.world.store.files.find path = record :=
    fun s next before framed => (framed.records path (fun away => away rfl) fun away => away rfl).trans before
  intro s before
  have outcome := keeps s.world s (PullFramed.refl s.world)
  rcases ended : x s with ⟨result, next⟩
  rw [ended] at outcome
  cases result with
  | error error => exact same s next before outcome
  | ok a => exact ⟨same s next before outcome.1, trivial⟩

/-- What stands at the location and what is recorded for the path. -/
structure Rests (linked : Location → Prop) (b : Location) (start : Tree) (q : Location) (path : Text)
    (node : Option Node) (record : Option FileSyncMeta) (s : PullState ρ) : Prop where
  standing : Standing linked b start q node s.world.disk
  recorded : s.world.store.files.find path = record

section Records

variable {I : Tree → Prop} {record : FileSyncMeta} {path : Text}

theorem storeMeta_records {what : String} : Cleanly (fun s : PullState ρ => I s.world.disk)
    (storeMeta env what record) fun _ s => I s.world.disk ∧ s.world.store.files.find record.path = some record := by
  refine Cleanly.bind (Q := fun r s => ∀ done, r = .ok done → I s.world.disk ∧
      s.world.store.files.find record.path = some record) (Cleanly.of_triple (Triple.attempt ?_)) ?_ fun r => ?_
  · refine Triple.zoom fun s before => ?_
    refine setFileMetasBatch_triple (fun impossible => by cases impossible) ?_ ?_
    · rintro _ rfl done -
      refine ⟨before, ?_⟩
      show (Records.set _ record).find record.path = some record
      rw [Records.find_set, if_pos rfl]
    · exact fun _ _ _ _ impossible => by cases impossible
  · intro r
    cases r with
    | ok _ => exact Grows.ret
    | error error => exact Grows.warned
  · cases r with
    | ok done => exact Cleanly.ret fun _ holds => holds done rfl
    | error error => exact Cleanly.warned

theorem forgetDeleted_forgets {what : String} : Cleanly (fun s : PullState ρ => I s.world.disk)
    (forgetDeleted env what path) fun _ s => I s.world.disk ∧ s.world.store.files.find path = none := by
  refine Cleanly.bind (Q := fun _ s => I s.world.disk ∧ s.world.store.files.find path = none) ?_
    (fun _ => Grows.same fun _ => rfl) fun _ => Cleanly.modify fun _ holds => holds
  refine Cleanly.bind (Q := fun r s => ∀ done, r = .ok done → I s.world.disk ∧
      s.world.store.files.find path = none) (Cleanly.of_triple (Triple.attempt ?_)) ?_ fun r => ?_
  · refine Triple.zoom fun s before => ?_
    refine writeStore_triple ?_ ?_
    · rintro _ rfl done -
      refine ⟨before, ?_⟩
      show (Records.remove _ path).find path = none
      rw [Records.find_remove, if_pos rfl]
    · exact fun _ _ _ _ impossible => by cases impossible
  · intro r
    cases r with
    | ok _ => exact Grows.ret
    | error error => exact Grows.warned
  · cases r with
    | ok done => exact Cleanly.ret fun _ holds => holds done rfl
    | error error => exact Cleanly.warned

end Records

theorem keeping_recordPulled {I : Tree → Prop} {plan : FilePlan} {size : Nat} {contentHash : Text} :
    Keeping (fun s : PullState ρ => I s.world.disk) (recordPulled env plan size contentHash) fun _ => True := by
  refine Keeping.bind (keeping_onDisk keeping_now) fun time _ => ?_
  refine Keeping.bind (F := fun _ => True) (keeping_onDisk ?_) fun modified _ =>
    Keeping.bind keeping_storeMeta fun _ _ => keeping_modify fun _ => rfl
  refine Keeping.bind keeping_readDisk fun r _ => ?_
  cases r with
  | error error => exact Keeping.ret trivial
  | ok time => exact Keeping.ite (fun _ => Keeping.ret trivial) fun _ => Keeping.ret trivial

section Others

variable {linked : Location → Prop} {b q : Location} {start : Tree} {node : Option Node} {ctx : PullContext}
  (anchored : Tree.Anchored start ctx.relationship.localBase b)
include anchored

theorem deleteLocal_stands {path : Text} {follow : Bool} {failure what : String}
    (stays : StaysBelow linked b false b (ctx.segments path)) (apart : place b (ctx.segments path) ≠ q) :
    Keeping (fun s : PullState ρ => Standing linked b start q node s.world.disk)
      (deleteLocal env ctx follow failure what path) fun _ => True := by
  refine Keeping.ite (fun _ => Keeping.ret trivial) fun _ => ?_
  refine Keeping.bind (keeping_onDisk keeping_readDisk) fun r _ => ?_
  cases r with
  | error error => exact keeping_forgetDeleted
  | ok _ =>
      refine Keeping.bind (keeping_onDisk (removeLocal_stands anchored stays apart)) fun r _ => ?_
      cases r with
      | error error => exact keeping_modify fun _ => rfl
      | ok _ => exact keeping_forgetDeleted

theorem pullSymlink_stands {entry : RemoteSyncSymlinkEntry}
    (stays : StaysBelow linked b false b (ctx.segments entry.path)) (own : linked (place b (ctx.segments entry.path)))
    (passes : ctx.Passes b q entry.path) : Keeping (fun s : PullState ρ => Standing linked b start q node s.world.disk)
      (pullSymlink env ctx entry) fun _ => True := by
  refine Keeping.ite (fun _ => Keeping.ret trivial) fun _ => ?_
  refine Keeping.bind (keeping_onDisk (createParent_stands anchored stays passes.ways)) fun r _ => ?_
  cases r with
  | error error => exact keeping_modify fun _ => rfl
  | ok _ =>
      refine Keeping.bind (F := fun _ => True) (keeping_onDisk ?_) fun r _ => ?_
      · refine Keeping.bind (F := fun _ => True) ?_ fun _ _ => Keeping.bind keeping_note fun _ _ =>
          (keeping_changeDisk (F := fun _ => True) ?_).weaken fun _ _ => trivial
        · refine Keeping.bind keeping_readDisk fun r _ => ?_
          cases r with
          | error error => exact Keeping.ret trivial
          | ok _ => exact Keeping.bind (removeLocal_stands anchored stays passes.apart) fun _ _ => Keeping.ret trivial
        · intro now disk _ next standing done
          obtain ⟨left, made, equal⟩ := map_eq_ok done
          cases equal
          obtain ⟨l, reached, -, touched⟩ := Tree.symlink_touches (ctx.localPathOf_cut _) made
          rw [ctx.localPathOf_eq] at reached
          obtain ⟨rfl, within⟩ := standing.resolve_below anchored (ctx.segments_ne _) stays reached
          refine ⟨⟨standing.toConfined.symlink (fun l found => ?_) made, ?_⟩, trivial⟩
          · rw [ctx.localPathOf_eq] at found
            obtain ⟨rfl, -⟩ := standing.resolve_below anchored (ctx.segments_ne _) stays found
            exact ⟨within, own⟩
          · rw [touched q passes.apart.symm]
            exact standing.here
      · cases r with
        | error error => exact keeping_modify fun _ => rfl
        | ok _ => exact Keeping.bind (keeping_onDisk keeping_now) fun time _ =>
            Keeping.bind keeping_storeMeta fun _ _ => keeping_modify fun _ => rfl

/-- A file that is assembled elsewhere leaves what stands at the location. -/
theorem assemblePlan_stands {plan : FilePlan} {fetched : List (Text × Bytes)} {fetchError : Option Text}
    (own : plan.localPath = ctx.localPathOf plan.entry.path)
    (stays : StaysBelow linked b false b (ctx.segments plan.entry.path))
    (apart : StaysBelow linked b true b (pushText (ctx.segments plan.entry.path) partialSuffix))
    (passes : ctx.Passes b q plan.entry.path) : Cleanly (fun s : PullState ρ => Standing linked b start q node s.world.disk)
      (assemblePlan env fetched fetchError plan) fun _ s => Standing linked b start q node s.world.disk := by
  cases fetchError with
  | some error => exact Cleanly.failed
  | none =>
      refine Cleanly.bind (Q := fun r s => ∀ result, r = .ok result → Standing linked b start q node s.world.disk)
        (Cleanly.of_triple (Triple.attempt (Triple.zoom fun s standing => ?_))) ?_ fun r => ?_
      · rintro _ rfl
        have contains := @assembleFile_contains ρ env linked b start ctx plan.entry.path anchored fetched plan own stays
          apart s.world standing.toConfined
        rcases ran : assembleFile env fetched plan s.world with ⟨result, next⟩
        rw [ran] at contains
        cases result with
        | error error => exact fun result impossible => by cases impossible
        | ok result =>
            intro _ _
            obtain ⟨used, assembled, -⟩ := assembleFile_lands anchored standing.toConfined own stays apart ran
            refine ⟨contains.1, ?_⟩
            show next.disk.node q = node
            rw [assembled.elsewhere q passes.apart.symm passes.partly.symm]
            exact standing.here
      · exact Grows.assembled
      · cases r with
        | error error => exact Cleanly.failed
        | ok result =>
            exact ((Cleanly.of_keeping keeping_recordPulled).strengthen fun _ _ holds => holds.1).weaken
              fun s holds => holds result rfl

end Others

end AeordbSync

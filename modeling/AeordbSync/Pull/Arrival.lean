import AeordbSync.Pull.Landing

namespace AeordbSync
open Characters OsPath FileSystem Effect

variable {ρ : Type} {env : Env ρ}

/-- Looking at an entry never fails by itself. -/
def Env.Sighted (env : Env ρ) : Prop :=
  ∀ call ∈ [DiskCall.exists, .symlinkMetadata, .modified], ∀ path tick, env.diskFault call path tick = none

/-- What a task leaves at the place of its path, and what it leaves recorded for the path. -/
def PullTask.Done (env : Env ρ) (hashPrefix : Text) : PullTask → Option Node → Option FileSyncMeta → Prop
  | .fetch entry, node, record => ∃ (pieces : List Bytes) (time modified synced : Int),
      pieces.map (chunkHash env.digest hashPrefix) = entry.chunkHashes ∧
        node = some (.file pieces.flatten time) ∧ (0 ≤ time → modified = time) ∧
        record = some (pulledFileMeta entry (env.digest pieces.flatten) pieces.flatten.length modified synced)
  | .link entry, node, record => ∃ time synced,
      node = some (.symlink (osText entry.target) time) ∧ record = some (pulledSymlinkMeta entry synced)
  | .removeFile _, node, record => node = none ∧ record = none
  | .removeSymlink _, node, record => node = none ∧ record = none

theorem PullContext.localPathOf_below (ctx : PullContext) (path : Text) :
    ctx.localPathOf path = below ctx.relationship.localBase (ctx.segments path) := by
  rw [ctx.localPathOf_eq]
  obtain ⟨first, rest, equal⟩ := List.exists_cons_of_ne_nil (ctx.segments_ne path)
  rw [equal]
  rfl

theorem mem_of_findLast {β : Type} {key : β → Text} {hash : Text} {xs : List β} {x : β}
    (found : findLast key hash xs = some x) : x ∈ xs :=
  List.mem_reverse.mp (List.mem_of_find?_eq_some found)

theorem findLast_key {β : Type} {key : β → Text} {hash : Text} {xs : List β} {x : β}
    (found : findLast key hash xs = some x) : key x = hash := by
  simpa using List.find?_some found

section Own

variable {linked : Location → Prop} {b : Location} {start : Tree} {node : Option Node} {ctx : PullContext}
  {path : Text} (anchored : Tree.Anchored start ctx.relationship.localBase b)
include anchored

theorem removeLocal_removes {entry : Text} (stays : StaysBelow linked b false b (ctx.segments path)) :
    Triple (fun w : World ρ => Tree.Confined linked b start w.disk) (removeLocal env entry (ctx.localPathOf path))
      (fun r w => ∀ done, r = .ok done → Standing linked b start (place b (ctx.segments path)) none w.disk)
      fun _ _ => True := by
  refine Triple.bind (Q := fun _ w => Tree.Confined linked b start w.disk) (note_triple fun _ confined => confined)
    fun _ => ?_
  refine changeDisk_triple (fun _ _ _ _ _ impossible => by cases impossible) fun w _ disk confined done _ _ => ?_
  obtain ⟨left, removed, equal⟩ := map_eq_ok done
  cases equal
  obtain ⟨l, reached, gone, -⟩ := Tree.removeFile_touches removed
  rw [ctx.localPathOf_eq] at reached
  obtain ⟨rfl, -⟩ := confined.resolve_below anchored (ctx.segments_ne path) stays reached
  refine ⟨confined.removeFile (fun l found => ?_) removed, gone⟩
  rw [ctx.localPathOf_eq] at found
  exact (confined.resolve_below anchored (ctx.segments_ne path) stays found).2

theorem createLocalSymlink_links {entry : RemoteSyncSymlinkEntry}
    (stays : StaysBelow linked b false b (ctx.segments entry.path)) (own : linked (place b (ctx.segments entry.path))) :
    Triple (fun w : World ρ => Tree.Confined linked b start w.disk)
      (createLocalSymlink env entry (ctx.localPathOf entry.path))
      (fun r w => ∀ done, r = .ok done → ∃ time, Standing linked b start (place b (ctx.segments entry.path))
        (some (.symlink (osText entry.target) time)) w.disk) fun _ _ => True := by
  have clear : Contains linked b start (ρ := ρ) (clearPlace env entry.path (ctx.localPathOf entry.path))
      fun _ => True := by
    refine Keeping.bind keeping_readDisk fun r _ => ?_
    cases r with
    | error error => exact Keeping.ret trivial
    | ok _ => exact Keeping.bind (removeLocal_contains anchored stays) fun _ _ => Keeping.ret trivial
  refine Triple.bind (clear.conseq (fun _ => id) (fun _ _ holds => holds.1) fun _ _ _ => trivial) fun _ => ?_
  refine Triple.bind (Q := fun _ w => Tree.Confined linked b start w.disk) (note_triple fun _ confined => confined)
    fun _ => ?_
  refine changeDisk_triple (fun _ _ _ _ _ impossible => by cases impossible) fun w _ disk confined done _ _ => ?_
  obtain ⟨left, made, equal⟩ := map_eq_ok done
  cases equal
  obtain ⟨l, reached, stands, -⟩ := Tree.symlink_touches (ctx.localPathOf_cut _) made
  rw [ctx.localPathOf_eq] at reached
  obtain ⟨rfl, within⟩ := confined.resolve_below anchored (ctx.segments_ne _) stays reached
  refine ⟨_, confined.symlink (fun l found => ?_) made, stands⟩
  rw [ctx.localPathOf_eq] at found
  obtain ⟨rfl, -⟩ := confined.resolve_below anchored (ctx.segments_ne _) stays found
  exact ⟨within, own⟩

/-- The entry of a pulled symlink stands at its place and is recorded. -/
theorem pullSymlink_links {entry : RemoteSyncSymlinkEntry} (included : ctx.isExcluded entry.path = false)
    (stays : StaysBelow linked b false b (ctx.segments entry.path)) (own : linked (place b (ctx.segments entry.path))) :
    Cleanly (fun s : PullState ρ => Tree.Confined linked b start s.world.disk) (pullSymlink env ctx entry)
      fun _ s => ∃ node record, (PullTask.link entry).Done env ctx.config.chunkHashPrefix node record ∧
        Rests linked b start (place b (ctx.segments entry.path)) entry.path node record s := by
  refine Cleanly.ite (fun excluded => absurd excluded (Bool.eq_false_iff.mp included)) fun _ => ?_
  refine Cleanly.bind (Cleanly.of_keeping (keeping_onDisk (createParent_contains anchored stays))) (fun r => ?_)
    fun r => ?_
  · cases r with
    | error error => exact Grows.failed
    | ok _ =>
        refine Grows.bind Grows.onDisk fun r => ?_
        cases r with
        | error error => exact Grows.failed
        | ok _ => exact Grows.bind Grows.onDisk fun _ => Grows.bind Grows.storeMeta fun _ => Grows.same fun _ => rfl
  cases r with
  | error error => exact Cleanly.failed
  | ok _ =>
      refine Cleanly.bind (Q := fun r s => ∀ done, r = .ok done → ∃ time, Standing linked b start
          (place b (ctx.segments entry.path)) (some (.symlink (osText entry.target) time)) s.world.disk)
        (Cleanly.of_triple (Triple.zoom fun s confined => ?_)) (fun r => ?_) fun r => ?_
      · exact (createLocalSymlink_links anchored stays own).weaken fun _ equal => equal ▸ confined.1
      · cases r with
        | error error => exact Grows.failed
        | ok _ => exact Grows.bind Grows.onDisk fun _ => Grows.bind Grows.storeMeta fun _ => Grows.same fun _ => rfl
      cases r with
      | error error => exact Cleanly.failed
      | ok done =>
          refine Triple.fix fun s links => ?_
          obtain ⟨time, standing⟩ := links done rfl
          refine Cleanly.weaken (P := fun s => Standing linked b start (place b (ctx.segments entry.path))
            (some (.symlink (osText entry.target) time)) s.world.disk) ?_ fun _ equal => equal ▸ standing
          refine Cleanly.bind (Cleanly.of_keeping (keeping_onDisk keeping_now)) (fun _ => Grows.bind Grows.storeMeta
            fun _ => Grows.same fun _ => rfl) fun synced => ?_
          refine Cleanly.weaken (P := fun s => Standing linked b start (place b (ctx.segments entry.path))
            (some (.symlink (osText entry.target) time)) s.world.disk) ?_ fun _ holds => holds.1
          refine Cleanly.bind storeMeta_records (fun _ => Grows.same fun _ => rfl) fun _ => ?_
          exact Cleanly.modify fun _ holds => ⟨_, _, ⟨time, synced, rfl, rfl⟩, holds.1, holds.2⟩

/-- What is deleted locally is gone together with its record. -/
theorem deleteLocal_removes (sighted : env.Sighted) {follow : Bool} {failure what : String}
    (tidy : ∀ name ∈ ctx.segments path, IsName name) (included : ctx.isExcluded path = false)
    (stays : StaysBelow linked b false b (ctx.segments path))
    (plain : follow = true → ¬ linked (place b (ctx.segments path))) :
    Cleanly (fun s : PullState ρ => Tree.Confined linked b start s.world.disk)
      (deleteLocal env ctx follow failure what path)
      fun _ s => Rests linked b start (place b (ctx.segments path)) path none none s := by
  have spelled := Tree.place_names tidy b
  refine Cleanly.ite (fun excluded => absurd excluded (Bool.eq_false_iff.mp included)) fun _ => ?_
  refine Cleanly.bind (Q := fun r s => Tree.Confined linked b start s.world.disk ∧
      ∀ error, r = .error error → s.world.disk.node (place b (ctx.segments path)) = none)
    (Cleanly.of_triple (Triple.zoom fun s confined => readDisk_triple ?_)) (fun r => ?_) fun r => ?_
  · rintro _ rfl
    refine ⟨confined, fun error unread => ?_⟩
    have calm : env.diskFault (if follow = true then .exists else .symlinkMetadata) (ctx.localPathOf path)
        s.world.tick = none := by
      cases follow with
      | true => exact sighted .exists (by simp) _ _
      | false => exact sighted .symlinkMetadata (by simp) _ _
    rw [Env.faulty, calm] at unread
    have reaches := confined.toChangedBelow.reaches anchored
    rw [ctx.localPathOf_below] at unread
    show s.world.disk.node (place b (ctx.segments path)) = none
    rw [spelled]
    refine reaches.absent (ctx.segments_ne path) follow (fun follows link => ?_) unread
    exact plain follows (spelled ▸ confined.links _ (List.prefix_append ..) link)
  · cases r with
    | error error => exact Grows.forgetDeleted
    | ok _ =>
        refine Grows.bind Grows.onDisk fun r => ?_
        cases r with
        | error error => exact Grows.failed
        | ok _ => exact Grows.forgetDeleted
  have forgets : Cleanly (fun s : PullState ρ => Standing linked b start (place b (ctx.segments path)) none s.world.disk)
      (forgetDeleted env what path) fun _ s => Rests linked b start (place b (ctx.segments path)) path none none s :=
    forgetDeleted_forgets.strengthen fun _ _ holds => ⟨holds.1, holds.2⟩
  cases r with
  | error error => exact forgets.weaken fun s holds => ⟨holds.1, holds.2 error rfl⟩
  | ok _ =>
      refine Cleanly.bind (Q := fun r s => ∀ done, r = .ok done → Standing linked b start
          (place b (ctx.segments path)) none s.world.disk) (Cleanly.of_triple (Triple.zoom fun s holds => ?_))
        (fun r => ?_) fun r => ?_
      · exact (removeLocal_removes anchored stays).weaken fun _ equal => equal ▸ holds.1
      · cases r with
        | error error => exact Grows.failed
        | ok _ => exact Grows.forgetDeleted
      cases r with
      | error error => exact Cleanly.failed
      | ok done => exact forgets.weaken fun s holds => holds done rfl

/-- The record of a pulled file has the time of the file. -/
theorem recordPulled_records (sighted : env.Sighted) {plan : FilePlan}
    (own : plan.localPath = ctx.localPathOf plan.entry.path)
    (tidy : ∀ name ∈ ctx.segments plan.entry.path, IsName name) {content : Bytes} {time : Int}
    {size : Nat} {contentHash : Text} :
    Cleanly (fun s : PullState ρ => Standing linked b start (place b (ctx.segments plan.entry.path))
        (some (.file content time)) s.world.disk) (recordPulled env plan size contentHash)
      fun _ s => ∃ modified synced, (0 ≤ time → modified = time) ∧
        Rests linked b start (place b (ctx.segments plan.entry.path)) plan.entry.path (some (.file content time))
          (some (pulledFileMeta plan.entry contentHash size modified synced)) s := by
  refine Cleanly.bind (Cleanly.of_keeping (keeping_onDisk keeping_now)) (fun _ => Grows.bind Grows.onDisk fun _ =>
    Grows.bind Grows.storeMeta fun _ => Grows.same fun _ => rfl) fun synced => ?_
  refine Cleanly.weaken (P := fun s => Standing linked b start (place b (ctx.segments plan.entry.path))
    (some (.file content time)) s.world.disk) ?_ fun _ holds => holds.1
  refine Cleanly.bind (Q := fun r s => Standing linked b start (place b (ctx.segments plan.entry.path))
      (some (.file content time)) s.world.disk ∧ (0 ≤ time → r = .ok time))
    (Cleanly.of_triple (Triple.zoom fun s standing => ?_)) (fun _ => Grows.bind Grows.storeMeta fun _ =>
      Grows.same fun _ => rfl) fun r => ?_
  · refine Triple.bind (Q := fun r w => Standing linked b start (place b (ctx.segments plan.entry.path))
        (some (.file content time)) w.disk ∧ r = .ok time) (readDisk_triple ?_) fun r => ?_
    · rintro _ rfl
      refine ⟨standing, ?_⟩
      have calm := sighted .modified (by simp) plan.localPath s.world.tick
      have here := standing.here
      rw [Tree.place_names tidy] at here
      rw [Env.faulty, calm, own, ctx.localPathOf_below]
      exact ((standing.toChangedBelow.reaches anchored).file_present (ctx.segments_ne _) here).2
    · refine Triple.assume (fun _ holds => holds.2) fun dated => ?_
      subst dated
      refine Triple.ite (fun negative => Triple.ret fun _ holds => ⟨holds.1, fun positive => by omega⟩) fun _ => ?_
      exact Triple.ret fun _ holds => ⟨holds.1, fun _ => rfl⟩
  refine Triple.assume (fun _ holds => holds.2) fun dated => ?_
  refine Cleanly.weaken (P := fun s => Standing linked b start (place b (ctx.segments plan.entry.path))
    (some (.file content time)) s.world.disk) ?_ fun _ holds => holds.1
  refine Cleanly.bind storeMeta_records (fun _ => Grows.same fun _ => rfl) fun _ => ?_
  refine Cleanly.modify fun s holds => ⟨_, synced, fun positive => ?_, holds.1, holds.2⟩
  rw [dated positive]

/-- A file that is assembled from honest bytes stands at its place and is recorded. -/
theorem assemblePlan_fetches (sighted : env.Sighted) {plan : FilePlan} {fetched : List (Text × Bytes)}
    {fetchError : Option Text} (own : plan.localPath = ctx.localPathOf plan.entry.path)
    (tidy : ∀ name ∈ ctx.segments plan.entry.path, IsName name)
    (plain : StaysBelow linked b true b (ctx.segments plan.entry.path))
    (apart : StaysBelow linked b true b (pushText (ctx.segments plan.entry.path) partialSuffix))
    (beside : ctx.Beside b plan.entry.path)
    (cut : CutFrom env ctx.config node plan.localChunks)
    (honest : ∀ pair ∈ fetched, chunkHash env.digest ctx.config.chunkHashPrefix pair.2 = pair.1) :
    Cleanly (fun s : PullState ρ => Standing linked b start (place b (ctx.segments plan.entry.path)) node s.world.disk)
      (assemblePlan env fetched fetchError plan) fun _ s => ∃ node record,
        (PullTask.fetch plan.entry).Done env ctx.config.chunkHashPrefix node record ∧
          Rests linked b start (place b (ctx.segments plan.entry.path)) plan.entry.path node record s := by
  cases fetchError with
  | some error => exact Cleanly.failed
  | none =>
      refine Cleanly.bind (Q := fun r s => ∀ result, r = .ok result → ∃ used : List Bytes, ∃ time,
          used.map (chunkHash env.digest ctx.config.chunkHashPrefix) = plan.entry.chunkHashes ∧
            result = (used.flatten.length, env.digest used.flatten) ∧
            Standing linked b start (place b (ctx.segments plan.entry.path)) (some (.file used.flatten time)) s.world.disk)
        (Cleanly.of_triple (Triple.attempt (Triple.zoom fun s standing => ?_))) ?_ fun r => ?_
      · rintro _ rfl
        have contains := @assembleFile_contains ρ env linked b start ctx plan.entry.path anchored fetched plan own
          plain.unfollowed apart s.world standing.toConfined
        rcases ran : assembleFile env fetched plan s.world with ⟨result, next⟩
        rw [ran] at contains
        cases result with
        | error error => exact fun result impossible => by cases impossible
        | ok result =>
            intro answer same
            cases same
            obtain ⟨used, assembled, supplied⟩ :=
              assembleFile_lands anchored standing.toConfined own plain.unfollowed apart ran
            obtain ⟨time, here⟩ := assembled.here
            refine ⟨used, time, ?_, assembled.result, contains.1, here⟩
            refine (map_of_forall₂ (g := id) (supplied plain beside) fun hash inside bytes taken => ?_).trans
              (List.map_id _)
            refine Matching.chunk ?_ inside taken
            refine ⟨fun hash _ chunk held content bytes read again => ?_, fun hash _ _ pair found => ?_⟩
            · obtain ⟨l, moment, reached, present⟩ := Tree.read_eq_ok read
              rw [own, ctx.localPathOf_eq] at reached
              obtain ⟨rfl, -⟩ := standing.resolve_below anchored (ctx.segments_ne _) plain reached
              rw [← findLast_key held]
              exact cut.chunk (mem_of_findLast held) (standing.here.symm.trans present) again
            · rw [← findLast_key found]
              exact honest pair (mem_of_findLast found)
      · exact Grows.assembled
      · cases r with
        | error error => exact Cleanly.failed
        | ok result =>
            refine Triple.fix fun s known => ?_
            obtain ⟨used, time, chunks, equal, standing⟩ := known result rfl
            subst equal
            refine (Cleanly.weaken (recordPulled_records anchored sighted own tidy) fun _ same =>
              same ▸ standing).strengthen fun _ s holds => ?_
            obtain ⟨modified, synced, dated, rests⟩ := holds
            exact ⟨_, _, ⟨used, time, modified, synced, chunks, rfl, dated, rfl⟩, rests⟩

end Own

end AeordbSync

import AeordbSync.Pull.Arrival

namespace AeordbSync
open Characters OsPath FileSystem Effect

variable {ρ α : Type} {env : Env ρ}

/-- The task is about a file, not about a symlink. -/
def PullTask.OfFile : PullTask → Prop
  | .fetch _ | .removeFile _ => True
  | .link _ | .removeSymlink _ => False

/-- What the diff asks for the path comes through: nothing that it asks for climbs above the root, leads through a
symlink or touches the place of the path on behalf of another one. -/
structure ComesThrough (globMatch : Text → Text → Bool) (ctx : PullContext) (disk : Tree) (b : Location)
    (changes : RemoteSyncChanges) (path : Text) : Prop where
  tidy : ∀ name ∈ ctx.segments path, IsName name
  stays : ∀ task ∈ ctx.tasks globMatch changes,
    StaysBelow (LinkedAfter ctx disk b changes.symlinks) b false b (ctx.segments task.path)
  partials : ∀ entry, .fetch entry ∈ ctx.tasks globMatch changes →
    StaysBelow (LinkedAfter ctx disk b changes.symlinks) b true b (pushText (ctx.segments entry.path) partialSuffix)
  passes : ∀ task ∈ ctx.tasks globMatch changes, task.path ≠ path →
    ctx.Passes b (place b (ctx.segments path)) task.path
  once : (changes.files.map RemoteSyncFileEntry.path).count path ≤ 1
  plain : ∀ task, ctx.lastTask globMatch changes path = some task → task.OfFile →
    ¬ disk.Symlinked (place b (ctx.segments path))

/-- What a pull has left for the path: what its last task leaves, or what was there before. -/
def Delivered (env : Env ρ) (ctx : PullContext) (changes : RemoteSyncChanges) (path : Text)
    (before after : Option Node × Option FileSyncMeta) : Prop :=
  match ctx.lastTask env.globMatch changes path with
  | some task => task.Done env ctx.config.chunkHashPrefix after.1 after.2
  | none => after = before

section Fetching

variable {I : Tree → Prop}

/-- The engine returns chunks that have the hashes it says. -/
def ServesChunks (env : Env ρ) (hashPrefix : Text) : Prop :=
  ∀ hashes remote pairs, (env.engine.syncChunks hashes remote).1 = .ok pairs →
    ∀ pair ∈ pairs, chunkHash env.digest hashPrefix pair.2 = pair.1

theorem fetchBatches_each {F : Text × Bytes → Prop} (answers : ∀ hashes remote pairs,
      (env.engine.syncChunks hashes remote).1 = .ok pairs → ∀ pair ∈ pairs, F pair) (batches : List (List Text)) :
    Keeping (fun w : World ρ => I w.disk) (fetchBatches env batches) fun fetched => ∀ pair ∈ fetched.1, F pair := by
  induction batches with
  | nil => exact Keeping.ret fun _ impossible => (List.not_mem_nil impossible).elim
  | cons batch rest ih =>
      have answer : Keeping (fun w : World ρ => I w.disk) (callRemote (env.engine.syncChunks batch))
          fun pairs => ∀ pair ∈ pairs, F pair :=
        callRemote_triple (fun _ _ before answered => ⟨before, answers _ _ _ answered⟩) fun _ _ before _ => before
      refine Keeping.bind (Keeping.attempt answer) fun r known => ?_
      cases r with
      | error error => exact Keeping.ret fun _ impossible => (List.not_mem_nil impossible).elim
      | ok pairs =>
          refine Keeping.bind ih fun others later => Keeping.ret fun pair inside => ?_
          exact (List.mem_append.mp inside).elim (known pairs rfl pair) (later pair)

/-- What holds of every returned chunk holds of all that are fetched. -/
theorem fetchChunks_each {F : Text × Bytes → Prop} (answers : ∀ hashes remote pairs,
      (env.engine.syncChunks hashes remote).1 = .ok pairs → ∀ pair ∈ pairs, F pair) (plans : List FilePlan) :
    Keeping (fun w : World ρ => I w.disk) (fetchChunks env plans) fun fetched => ∀ pair ∈ fetched.1, F pair :=
  Keeping.bind keeping_arrange fun _ _ => fetchBatches_each answers _

end Fetching

theorem LinkedAfter.of_task {ctx : PullContext} {disk : Tree} {b : Location} {changes : RemoteSyncChanges}
    {entry : RemoteSyncSymlinkEntry} (inside : .link entry ∈ ctx.tasks env.globMatch changes) :
    LinkedAfter ctx disk b changes.symlinks (place b (ctx.segments entry.path)) :=
  Or.inr ⟨entry, mem_tasks_link inside, mem_tasks inside, rfl⟩

namespace ComesThrough

variable {disk : Tree} {b : Location} {ctx : PullContext} {changes : RemoteSyncChanges} {path : Text}
  (comes : ComesThrough env.globMatch ctx disk b changes path)
include comes

theorem off : ctx.OffWay b (place b (ctx.segments path)) path := by
  intro way rest whole some same
  rw [Tree.solid_names comes.tidy] at whole
  have names := comes.tidy
  rw [whole] at names
  rw [whole, Tree.place_append, Tree.place_names fun name inside => names name (List.mem_append_right _ inside)] at same
  exact some (List.self_eq_append_right.mp same)

theorem beside : ctx.Beside b path :=
  Tree.place_beside comes.tidy (ctx.segments_ne path) (by decide) b

/-- No symlink comes to stand where a task for a file has the last word. -/
theorem unlinked {task : PullTask} (last : ctx.lastTask env.globMatch changes path = some task) (file : task.OfFile) :
    ¬ LinkedAfter ctx disk b changes.symlinks (place b (ctx.segments path)) := by
  rintro (old | ⟨entry, listed, included, same⟩)
  · exact comes.plain task last file old
  · have inside : .link entry ∈ ctx.tasks env.globMatch changes := link_mem_tasks listed included
    have other : entry.path ≠ path := by
      intro own
      have turn : 2 ≤ task.turn := lastTask_turn last inside own
      cases task with
      | fetch | removeFile => simp [PullTask.turn] at turn
      | link | removeSymlink => exact file
    exact (comes.passes _ inside other).apart same.symm

end ComesThrough

theorem PlannedFor.task {ctx : PullContext} {node : Option Node} {wanted : Text → Prop} {changes : RemoteSyncChanges}
    {plans : List FilePlan} (planned : PlannedFor env ctx node wanted changes.files plans) {plan : FilePlan}
    (inside : plan ∈ plans) : .fetch plan.entry ∈ ctx.tasks env.globMatch changes := by
  have listed := List.mem_map_of_mem (f := FilePlan.entry) inside
  rw [planned.entries, List.mem_filter, PullContext.fetches, Bool.and_eq_true, Bool.not_eq_true'] at listed
  exact mem_tasks_fetch.mpr ⟨⟨listed.1, listed.2.2⟩, listed.2.1⟩

section Rounds

variable {linked : Location → Prop} {b q : Location} {start : Tree} {path : Text} {node : Option Node}
  {record : Option FileSyncMeta}

/-- What leaves the location and the record of the path leaves both. -/
theorem Cleanly.rests {x : PullProgram ρ α} {F : α → Prop}
    (stands : Cleanly (fun s : PullState ρ => Standing linked b start q node s.world.disk) x
      fun a s => Standing linked b start q node s.world.disk ∧ F a)
    (keeps : ∀ begun, PullKeeps (otherRecords path) begun x fun _ => True) :
    Cleanly (Rests linked b start q path node record) x fun a s => Rests linked b start q path node record s ∧ F a :=
  ((stands.and_keeping (record_kept keeps record)).weaken fun _ rests => ⟨rests.standing, rests.recorded⟩).strengthen
    fun _ _ holds => ⟨⟨holds.1.1, holds.2⟩, holds.1.2⟩

theorem Cleanly.rests_round {x : PullProgram ρ Unit}
    (stands : Cleanly (fun s : PullState ρ => Standing linked b start q node s.world.disk) x
      fun _ s => Standing linked b start q node s.world.disk)
    (keeps : ∀ begun, PullKeeps (otherRecords path) begun x fun _ => True) :
    Cleanly (Rests linked b start q path node record) x fun _ => Rests linked b start q path node record :=
  (Cleanly.rests (F := fun _ => True) (stands.strengthen fun _ _ holds => ⟨holds, trivial⟩) keeps).strengthen
    fun _ _ holds => holds.1

end Rounds

section Changes

variable {b : Location} {start : Tree} {ctx : PullContext} {changes : RemoteSyncChanges} {path : Text}
  {node : Option Node} {record : Option FileSyncMeta}
  (anchored : Tree.Anchored start ctx.relationship.localBase b)
  (comes : ComesThrough env.globMatch ctx start b changes path)

/-- The pull keeps below its base, and this stands and is recorded for the path. -/
abbrev RestsFor (ctx : PullContext) (start : Tree) (b : Location) (changes : RemoteSyncChanges) (path : Text)
    (node : Option Node) (record : Option FileSyncMeta) (s : PullState ρ) : Prop :=
  Rests (LinkedAfter ctx start b changes.symlinks) b start (place b (ctx.segments path)) path node record s

/-- The task has been done for the path. -/
def Arrived (env : Env ρ) (ctx : PullContext) (start : Tree) (b : Location) (changes : RemoteSyncChanges) (path : Text)
    (task : PullTask) (s : PullState ρ) : Prop :=
  ∃ node record, task.Done env ctx.config.chunkHashPrefix node record ∧ RestsFor ctx start b changes path node record s

theorem Cleanly.arrived {task : PullTask} {x : PullProgram ρ Unit} (rests : ∀ node record,
      Cleanly (RestsFor ctx start b changes path node record) x fun _ => RestsFor ctx start b changes path node record) :
    Cleanly (Arrived env ctx start b changes path task) x fun _ => Arrived env ctx start b changes path task := by
  refine Triple.fix fun s arrived => ?_
  obtain ⟨node, record, done, here⟩ := arrived
  exact Cleanly.strengthen ((rests node record).weaken (U := (· = s)) fun _ same => same ▸ here) fun _ _ left =>
    ⟨node, record, done, left⟩

theorem fetchChunks_rests (serves : ServesChunks env ctx.config.chunkHashPrefix) {plans : List FilePlan} :
    Cleanly (RestsFor ctx start b changes path node record) (onDisk (fetchChunks env plans))
      fun fetched s => RestsFor ctx start b changes path node record s ∧
        ∀ pair ∈ fetched.1, chunkHash env.digest ctx.config.chunkHashPrefix pair.2 = pair.1 :=
  Cleanly.rests (Cleanly.of_keeping (keeping_onDisk (fetchChunks_each serves plans))) fun _ =>
    keeps_onDisk fetchChunks_framed

include anchored comes

theorem run_rests {task : PullTask} (inside : task ∈ ctx.tasks env.globMatch changes) (other : task.path ≠ path) :
    Cleanly (RestsFor ctx start b changes path node record) (task.run env ctx)
      fun _ => RestsFor ctx start b changes path node record := by
  have stays := comes.stays task inside
  have passes := comes.passes task inside other
  cases task with
  | fetch entry => exact Cleanly.ret fun _ rests => rests
  | link entry =>
      refine Cleanly.rests_round ((Cleanly.of_keeping (pullSymlink_stands anchored stays (.of_task inside)
        passes)).strengthen fun _ _ holds => holds.1) fun begun => ?_
      exact pullSymlink_keeps fun _ => ⟨fun _ _ _ => trivial, other⟩
  | removeFile removed | removeSymlink removed =>
      refine Cleanly.rests_round ((Cleanly.of_keeping (deleteLocal_stands anchored stays passes.apart)).strengthen
        fun _ _ holds => holds.1) fun begun => ?_
      exact deleteLocal_keeps fun _ => ⟨trivial, other⟩

theorem run_confined {task : PullTask} (inside : task ∈ ctx.tasks env.globMatch changes) :
    Cleanly (fun s : PullState ρ => Tree.Confined (LinkedAfter ctx start b changes.symlinks) b start s.world.disk)
      (task.run env ctx)
      fun _ s => Tree.Confined (LinkedAfter ctx start b changes.symlinks) b start s.world.disk := by
  have stays := comes.stays task inside
  cases task with
  | fetch entry => exact Cleanly.ret fun _ confined => confined
  | link entry =>
      refine Cleanly.of_triple ((pullSymlink_contains anchored (fun _ => id) fun _ =>
        ⟨stays, .of_task inside⟩).conseq (fun _ => id) (fun _ _ => id) fun _ _ _ => trivial)
  | removeFile removed | removeSymlink removed =>
      exact (Cleanly.of_keeping (deleteLocal_contains anchored fun _ => stays)).strengthen fun _ _ holds => holds.1

theorem planEntries_rests (wanted : Text → Prop) (own : ∀ other, wanted other → other = path ∧
      StaysBelow (LinkedAfter ctx start b changes.symlinks) b true b (ctx.segments path)) :
    Cleanly (RestsFor ctx start b changes path node record) (planEntries env ctx changes.files)
      fun plans s => RestsFor ctx start b changes path node record s ∧
        PlannedFor env ctx node wanted changes.files plans := by
  refine Cleanly.rests (planEntries_stands anchored fun entry listed fetched => ?_) fun begun =>
    (planEntries_keeps fun _ _ _ _ _ _ => trivial).weaken fun _ _ => trivial
  have inside : .fetch entry ∈ ctx.tasks env.globMatch changes := by
    rw [PullContext.fetches, Bool.and_eq_true, Bool.not_eq_true'] at fetched
    exact mem_tasks_fetch.mpr ⟨⟨listed, fetched.2⟩, fetched.1⟩
  refine ⟨comes.stays _ inside, ?_, fun wants => ?_⟩
  · by_cases same : entry.path = path
    · rw [same]
      exact comes.off
    · exact (comes.passes _ inside same).ways
  · obtain ⟨same, plain⟩ := own _ wants
    rw [same]
    exact ⟨plain, rfl⟩

theorem assemblePlan_rests {wanted : Text → Prop} {plans : List FilePlan} {fetched : List (Text × Bytes)}
    {fetchError : Option Text} (planned : PlannedFor env ctx node wanted changes.files plans) {plan : FilePlan}
    (inside : plan ∈ plans) (other : plan.entry.path ≠ path) {now : Option Node} :
    Cleanly (RestsFor ctx start b changes path now record) (assemblePlan env fetched fetchError plan)
      fun _ => RestsFor ctx start b changes path now record := by
  have task := planned.task inside
  refine Cleanly.rests_round (assemblePlan_stands anchored (planned.localPath plan inside) (comes.stays _ task)
    (comes.partials _ task) (comes.passes _ task other)) fun begun => ?_
  exact assemblePlan_keeps (fun _ _ _ => trivial) other

theorem pullFiles_confined :
    Cleanly (fun s : PullState ρ => Tree.Confined (LinkedAfter ctx start b changes.symlinks) b start s.world.disk)
      (pullFiles env ctx changes.files)
      fun _ s => Tree.Confined (LinkedAfter ctx start b changes.symlinks) b start s.world.disk := by
  refine (Cleanly.of_keeping (F := fun _ => True) ?_).strengthen fun _ _ holds => holds.1
  refine Keeping.bind (planEntries_contains anchored fun entry listed included accepted =>
    comes.stays _ (mem_tasks_fetch.mpr ⟨⟨listed, accepted⟩, included⟩)) fun plans known => ?_
  refine Keeping.bind (keeping_onDisk (fetchChunks_each (F := fun _ => True) (fun _ _ _ _ _ _ => trivial) plans))
    fun fetched _ => Keeping.forEach fun plan inside => ?_
  obtain ⟨listed, own, included, accepted⟩ := known plan inside
  have task := mem_tasks_fetch.mpr ⟨⟨listed, accepted⟩, included⟩
  exact assemblePlan_contains anchored own (comes.stays _ task) (comes.partials _ task)

/-- Where no file is fetched for the path, fetching the files leaves it. -/
theorem pullFiles_rests (serves : ServesChunks env ctx.config.chunkHashPrefix)
    (none : ∀ entry, .fetch entry ∈ ctx.tasks env.globMatch changes → entry.path ≠ path) :
    Cleanly (RestsFor ctx start b changes path node record) (pullFiles env ctx changes.files)
      fun _ => RestsFor ctx start b changes path node record := by
  refine Cleanly.bind (planEntries_rests anchored comes (fun _ => False) fun _ impossible =>
    impossible.elim) (fun plans => Grows.bind Grows.onDisk fun _ => Grows.forEach fun _ => Grows.assemblePlan)
    fun plans => ?_
  refine Triple.assume (fun _ holds => holds.2) fun planned => ?_
  refine Cleanly.weaken (P := RestsFor ctx start b changes path node record) ?_ fun _ holds => holds.1
  refine Cleanly.bind (fetchChunks_rests serves) (fun _ => Grows.forEach fun _ =>
    Grows.assemblePlan) fun fetched => ?_
  refine Cleanly.weaken (P := RestsFor ctx start b changes path node record) ?_ fun _ holds => holds.1
  exact Cleanly.forEach_keep plans (fun _ => Grows.assemblePlan) fun plan inside =>
    assemblePlan_rests anchored comes planned inside (none _ (planned.task inside))

omit anchored in
/-- The plan for a path that is listed once. -/
theorem PlannedFor.split {wanted : Text → Prop} {plans : List FilePlan}
    (planned : PlannedFor env ctx node wanted changes.files plans) {entry : RemoteSyncFileEntry}
    (inside : .fetch entry ∈ ctx.tasks env.globMatch changes) (named : entry.path = path) :
    ∃ front plan back, plans = front ++ plan :: back ∧ plan.entry = entry ∧
      ∀ other, other ∈ front ∨ other ∈ back → other.entry.path ≠ path := by
  obtain ⟨⟨listed, accepted⟩, included⟩ := mem_tasks_fetch.mp inside
  have fetched : entry ∈ plans.map FilePlan.entry := by
    rw [planned.entries, List.mem_filter, PullContext.fetches, accepted, included]
    exact ⟨listed, rfl⟩
  obtain ⟨plan, found, rfl⟩ := List.mem_map.mp fetched
  obtain ⟨front, back, rfl⟩ := List.append_of_mem found
  have once : ((front ++ plan :: back).map fun other => other.entry.path).count path ≤ 1 := by
    refine le_trans ?_ comes.once
    have listing : (front ++ plan :: back).map (fun other => other.entry.path) =
        (changes.files.filter (ctx.fetches env.globMatch)).map RemoteSyncFileEntry.path := by
      rw [← planned.entries, List.map_map]
      rfl
    rw [listing]
    exact (List.filter_sublist.map _).count_le _
  rw [List.map_append, List.map_cons, named, List.count_append, List.count_cons_self] at once
  refine ⟨front, plan, back, rfl, rfl, fun other inside same => ?_⟩
  rcases inside with before | after
  · have positive := List.count_pos_iff.mpr (same ▸ List.mem_map_of_mem
      (f := fun other : FilePlan => other.entry.path) before)
    omega
  · have positive := List.count_pos_iff.mpr (same ▸ List.mem_map_of_mem
      (f := fun other : FilePlan => other.entry.path) after)
    omega

/-- A file that is fetched last for the path arrives. -/
theorem pullFiles_delivers (serves : ServesChunks env ctx.config.chunkHashPrefix) (sighted : env.Sighted)
    {entry : RemoteSyncFileEntry} (last : ctx.lastTask env.globMatch changes path = some (.fetch entry)) :
    Cleanly (RestsFor ctx start b changes path node record) (pullFiles env ctx changes.files)
      fun _ => Arrived env ctx start b changes path (.fetch entry) := by
  obtain ⟨named, task⟩ := lastTask_own last
  have plain : StaysBelow (LinkedAfter ctx start b changes.symlinks) b true b (ctx.segments path) := by
    exact StaysBelow.followed (named ▸ comes.stays _ task) (comes.unlinked last trivial)
  refine Cleanly.bind (planEntries_rests anchored comes (· = path) fun _ same => ⟨same, plain⟩)
    (fun plans => Grows.bind Grows.onDisk fun _ => Grows.forEach fun _ => Grows.assemblePlan) fun plans => ?_
  refine Triple.assume (fun _ holds => holds.2) fun planned => ?_
  refine Cleanly.weaken (P := RestsFor ctx start b changes path node record) ?_ fun _ holds => holds.1
  refine Cleanly.bind (fetchChunks_rests serves) (fun _ => Grows.forEach fun _ => Grows.assemblePlan) fun fetched => ?_
  refine Triple.assume (fun _ holds => holds.2) fun honest => ?_
  refine Cleanly.weaken (P := RestsFor ctx start b changes path node record) ?_ fun _ holds => holds.1
  obtain ⟨front, plan, back, rfl, rfl, others⟩ := planned.split comes task named
  have inside : plan ∈ front ++ plan :: back := List.mem_append_right _ (List.mem_cons_self ..)
  have partly := comes.partials _ task
  have beside := comes.beside
  have tidy := comes.tidy
  have cut := planned.cut plan inside named
  refine Cleanly.forEach_around (fun _ => Grows.assemblePlan) (fun other before => ?_) ?_ fun other after => ?_
  · exact assemblePlan_rests anchored comes planned (List.mem_append_left _ before) (others other (Or.inl before))
  · subst named
    exact (assemblePlan_fetches anchored sighted (planned.localPath plan inside) tidy plain partly beside cut
      honest).weaken fun _ rests => rests.standing
  · exact Cleanly.arrived fun _ _ => assemblePlan_rests anchored comes planned
      (List.mem_append_right _ (List.mem_cons_of_mem _ after)) (others other (Or.inr after))

/-- A task that has its own round brings about what it is for. -/
theorem run_arrives (sighted : env.Sighted) {task : PullTask}
    (last : ctx.lastTask env.globMatch changes path = some task) (round : ∀ entry, task ≠ .fetch entry) :
    Cleanly (fun s : PullState ρ => Tree.Confined (LinkedAfter ctx start b changes.symlinks) b start s.world.disk)
      (task.run env ctx) fun _ => Arrived env ctx start b changes path task := by
  obtain ⟨named, inside⟩ := lastTask_own last
  have included := mem_tasks inside
  have stays := comes.stays task inside
  subst named
  cases task with
  | fetch entry => exact absurd rfl (round entry)
  | link entry => exact pullSymlink_links anchored included stays (.of_task inside)
  | removeFile removed =>
      exact (deleteLocal_removes anchored sighted comes.tidy included stays fun _ =>
        comes.unlinked last trivial).strengthen fun _ _ rests => ⟨none, none, ⟨rfl, rfl⟩, rests⟩
  | removeSymlink removed =>
      exact (deleteLocal_removes anchored sighted comes.tidy included stays fun impossible =>
        Bool.noConfusion impossible).strengthen fun _ _ rests => ⟨none, none, ⟨rfl, rfl⟩, rests⟩

theorem pullChanges_arrives (serves : ServesChunks env ctx.config.chunkHashPrefix) (sighted : env.Sighted)
    {task : PullTask} (last : ctx.lastTask env.globMatch changes path = some task) :
    Cleanly (RestsFor ctx start b changes path node record) (pullChanges env ctx changes) fun _ =>
      Arrived env ctx start b changes path task := by
  rw [pullChanges_tasks]
  have rounds : ∀ _ : Unit, Grows (Proc.forEach (ctx.tasks env.globMatch changes) (PullTask.run env ctx)) :=
    fun _ => Grows.forEach fun task => Grows.run task
  by_cases round : ∀ entry, task ≠ .fetch entry
  · refine Cleanly.bind ((pullFiles_confined anchored comes).weaken fun _ rests => rests.standing.toConfined)
      rounds fun _ => ?_
    obtain ⟨-, front, back, whole, later⟩ := lastTask_split last
    have listed : ∀ other, other ∈ front ∨ other ∈ back → other ∈ ctx.tasks env.globMatch changes := by
      rw [whole]
      exact fun other => fun part => part.elim (List.mem_append_left _) fun after =>
        List.mem_append_right _ (List.mem_cons_of_mem _ after)
    rw [whole]
    refine Cleanly.forEach_around (fun task => Grows.run task) (fun other before => ?_) ?_ fun other after => ?_
    · exact run_confined anchored comes (listed other (Or.inl before))
    · exact run_arrives anchored comes sighted last round
    · exact Cleanly.arrived fun _ _ => run_rests anchored comes (listed other (Or.inr after)) (later other after)
  · obtain ⟨entry, rfl⟩ : ∃ entry, task = .fetch entry := by simpa using round
    refine Cleanly.bind (pullFiles_delivers anchored comes serves sighted last) rounds fun _ => ?_
    refine Cleanly.forEach_keep _ (fun task => Grows.run task) fun other inside => ?_
    by_cases own : other.path = path
    · have turn := lastTask_turn last inside own
      cases other with
      | fetch entry => exact Cleanly.ret fun _ arrived => arrived
      | link | removeFile | removeSymlink => simp [PullTask.turn] at turn
    · exact Cleanly.arrived fun _ _ => run_rests anchored comes inside own

/-- The changes of a diff leave for a path what its last task leaves. -/
theorem pullChanges_delivers (serves : ServesChunks env ctx.config.chunkHashPrefix) (sighted : env.Sighted) :
    Cleanly (RestsFor ctx start b changes path node record) (pullChanges env ctx changes) fun _ s =>
      ∃ after, Delivered env ctx changes path (node, record) after ∧
        RestsFor ctx start b changes path after.1 after.2 s := by
  unfold Delivered
  cases last : ctx.lastTask env.globMatch changes path with
  | none =>
      have apart := lastTask_none last
      dsimp only
      rw [pullChanges_tasks]
      refine Cleanly.bind (pullFiles_rests anchored comes serves fun entry inside => apart _ inside)
        (fun _ => Grows.forEach fun task => Grows.run task) fun _ => ?_
      refine (Cleanly.forEach_keep _ (fun task => Grows.run task) fun task inside =>
        run_rests anchored comes inside (apart task inside)).strengthen fun _ _ rests => ?_
      exact ⟨(node, record), rfl, rests⟩
  | some task =>
      refine (pullChanges_arrives anchored comes serves sighted last).strengthen fun _ s arrived => ?_
      obtain ⟨node, record, done, rests⟩ := arrived
      exact ⟨(node, record), done, rests⟩

theorem applyDiff_delivers (serves : ServesChunks env ctx.config.chunkHashPrefix) (sighted : env.Sighted)
    {rootHash : Text} :
    Cleanly (RestsFor ctx start b changes path node record) (applyDiff env ctx ⟨rootHash, changes⟩) fun _ s =>
      Delivered env ctx changes path (node, record)
        (s.world.disk.node (place b (ctx.segments path)), s.world.store.files.find path) := by
  refine Cleanly.bind (pullChanges_delivers anchored comes serves sighted) (fun _ => Grows.onDisk) fun _ => ?_
  refine Triple.fix fun s left => ?_
  obtain ⟨after, delivered, rests⟩ := left
  have saved : Cleanly (RestsFor ctx start b changes path after.1 after.2)
      (onDisk (saveCheckpoint env ctx.relationship rootHash)) fun _ => RestsFor ctx start b changes path after.1 after.2 :=
    Cleanly.rests_round ((Cleanly.of_keeping (keeping_onDisk (Keeping.bind keeping_now fun _ _ =>
      keeping_writeStore))).strengthen fun _ _ holds => holds.1) fun _ => keeps_onDisk saveCheckpoint_framed
  refine Cleanly.strengthen (saved.weaken (U := (· = s)) fun _ same => same ▸ rests) fun _ t kept => ?_
  have equal : (t.world.disk.node (place b (ctx.segments path)), t.world.store.files.find path) = after :=
    Prod.ext kept.standing.here kept.recorded
  rw [equal]
  exact delivered

end Changes

theorem ensureLocalBase_stands {relationship : SyncRelationship} {linked : Location → Prop} {b q : Location}
    {start : Tree} {node : Option Node} (anchored : Tree.Anchored start relationship.localBase b) :
    Keeping (fun w : World ρ => Standing linked b start q node w.disk) (ensureLocalBase env relationship)
      fun _ => True := by
  refine Keeping.bind keeping_readDisk fun r _ => ?_
  cases r with
  | ok _ => exact Keeping.ret trivial
  | error error =>
      refine keeping_orFail ((keeping_createDirs _ ?_).weaken fun _ _ _ _ => trivial)
      intro front before disk next standing made
      rw [List.reverse_reverse] at before
      obtain ⟨l, reached, absent, -⟩ := Tree.createDir_touches made
      exact absurd absent (Tree.resolve_leads (anchored.2 disk standing.toChangedBelow)
        (standing.directories b anchored.1) before reached)

/-- A pull that returns has been offered a diff, and the checkpoint is the one of the diff. -/
theorem pullSync_checkpoint {relationship : SyncRelationship} {others : List SyncRelationship} {w next : World ρ}
    {result : PullResult} (ran : pullSync env relationship others w = (.ok result, next)) :
    ∃ config diff, (env.engine.blobConfig w.remote).1 = .ok config ∧ offeredDiff env w = .ok diff ∧
      next.store.checkpoint.map SyncCheckpoint.remoteRootHash = some diff.rootHash := by
  have run : Triple (· = w) (pullSync env relationship others) (fun _ next => ∃ config diff,
      (env.engine.blobConfig w.remote).1 = .ok config ∧ offeredDiff env w = .ok diff ∧
        next.store.checkpoint.map SyncCheckpoint.remoteRootHash = some diff.rootHash) fun _ _ => True := by
    refine pullSync_triple (I := fun _ => True) trivial (Triple.trivially (fun _ _ => ⟨trivial, trivial⟩) fun _ _ =>
      trivial) (fun _ _ _ _ _ => trivial) fun config diff begun configured offered _ _ => ?_
    refine Triple.bind (Q := fun _ _ => True) (Triple.trivially (fun _ _ => trivial) fun _ _ => trivial) fun _ => ?_
    refine Triple.zoom fun s _ => Triple.bind (Q := fun _ _ => True) (Triple.trivially (fun _ _ => trivial) fun _ _ =>
      trivial) fun time => ?_
    exact writeStore_triple (fun _ _ => ⟨config, diff, configured, offered, rfl⟩) fun _ _ _ => trivial
  have outcome := run w rfl
  rw [ran] at outcome
  exact outcome

/-- A pull that reports no error has left for a path that comes through what the last task of its diff leaves there. -/
theorem pullSync_path {relationship : SyncRelationship} {others : List SyncRelationship} {w next : World ρ}
    {b : Location} {config : BlobConfig} {diff : RemoteSyncDiffResponse} {path : Text} {result : PullResult}
    (anchored : Tree.Anchored w.disk relationship.localBase b) (sighted : env.Sighted)
    (serves : ServesChunks env config.chunkHashPrefix) (configured : (env.engine.blobConfig w.remote).1 = .ok config)
    (offered : offeredDiff env w = .ok diff)
    (comes : ComesThrough env.globMatch ⟨relationship, others, config⟩ w.disk b diff.changes path)
    (ran : pullSync env relationship others w = (.ok result, next)) (clean : result.errors = []) :
    Delivered env ⟨relationship, others, config⟩ diff.changes path
      (w.disk.node (place b (PullContext.segments ⟨relationship, others, config⟩ path)), w.store.files.find path)
      (next.disk.node (place b (PullContext.segments ⟨relationship, others, config⟩ path)),
        next.store.files.find path) := by
  generalize holds : (⟨relationship, others, config⟩ : PullContext) = ctx at comes ⊢
  have same : relationship = ctx.relationship := by rw [← holds]
  have run : Triple (· = w) (pullSync env relationship others) (fun result next => result.errors ≠ [] ∨
      Delivered env ctx diff.changes path (w.disk.node (place b (ctx.segments path)), w.store.files.find path)
        (next.disk.node (place b (ctx.segments path)), next.store.files.find path)) fun _ _ => True := by
    refine pullSync_triple (I := Standing (LinkedAfter ctx w.disk b diff.changes.symlinks) b w.disk
      (place b (ctx.segments path)) (w.disk.node (place b (ctx.segments path)))) ?_ (ensureLocalBase_stands anchored)
      (fun _ _ _ _ _ => trivial) ?_
    · exact ⟨⟨.refl b w.disk, fun _ _ link => Or.inl link⟩, rfl⟩
    intro other changed begun known again start standing
    rw [configured] at known
    cases known
    rw [offered] at again
    cases again
    rw [holds]
    refine Triple.weaken (applyDiff_delivers (same ▸ anchored) comes ?_ sighted) fun s equal => ?_
    · rw [← holds]
      exact serves
    · subst equal
      exact ⟨standing, congrArg (fun store => store.files.find path) start.store⟩
  have outcome := run w rfl
  rw [ran] at outcome
  exact outcome.resolve_left fun broken => broken clean

section Decidable

variable {ctx : PullContext} {b q : Location} {path : Text}

theorem PullContext.offWay_iff : (∀ way ∈ (solid (ctx.segments path)).inits, way ≠ solid (ctx.segments path) →
    place b way ≠ q) ↔ ctx.OffWay b q path := by
  constructor
  · intro off way rest whole some
    refine off way ((List.mem_inits way _).mpr ⟨rest, whole.symm⟩) fun same => some ?_
    rw [← same] at whole
    exact List.self_eq_append_right.mp whole
  · intro off way inside other
    obtain ⟨rest, whole⟩ := (List.mem_inits way _).mp inside
    refine off way rest whole.symm fun none => other ?_
    rw [← whole, none, List.append_nil]

instance : Decidable (ctx.OffWay b q path) := decidable_of_iff _ ctx.offWay_iff

instance : Decidable (ctx.Passes b q path) :=
  decidable_of_iff (ctx.OffWay b q path ∧ place b (ctx.segments path) ≠ q ∧
    place b (pushText (ctx.segments path) partialSuffix) ≠ q)
    ⟨fun holds => ⟨holds.1, holds.2.1, holds.2.2⟩, fun passes => ⟨passes.ways, passes.apart, passes.partly⟩⟩

end Decidable

theorem Shelf.serves : ServesChunks shelfEnv plainConfig.chunkHashPrefix := by
  intro hashes remote pairs answered pair inside
  cases answered
  obtain ⟨hash, -, found⟩ := List.mem_filterMap.mp inside
  obtain ⟨bytes, known, rfl⟩ := Option.map_eq_some_iff.mp found
  exact chunkOf_digest known

/-- A new file and a new symlink, and the removal of another one. -/
def arrivingChanges : RemoteSyncChanges :=
  ⟨[noteEntry "/docs/note"], [], [], [linkEntry "/docs/out" "/etc"], [], [⟨text "/docs/old"⟩]⟩

end AeordbSync

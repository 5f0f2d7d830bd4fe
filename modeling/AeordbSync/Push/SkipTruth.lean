import AeordbSync.Push.RaceRules
import AeordbSync.Push.TransferRules
import AeordbSync.Push.RunPaths
import AeordbSync.Library.Runs
import AeordbSync.Reference

namespace AeordbSync
open Characters OsPath FileSystem Effect

/-- The time has been seen at the path, and what has this time there now is good. -/
def Dated (seen : Seen) (entry : PathBuf) (time : Int) (good : Bytes → Prop) : Prop :=
  seen.Spent entry time ∧ ∀ bytes, shownAt seen.disk entry = some (bytes, time) → good bytes

theorem Dated.step {paths : Set PathBuf} {seen next : Seen} {entry : PathBuf} {time : Int} {good : Bytes → Prop}
    (dated : Dated seen entry time good) (inside : entry ∈ paths) (follows : seen.Follows paths next) :
    Dated next entry time good :=
  ⟨follows.spent dated.1, fun bytes shown => dated.2 bytes (follows.shown inside dated.1 shown)⟩

theorem Dated.mono {seen : Seen} {entry : PathBuf} {time : Int} {good other : Bytes → Prop}
    (dated : Dated seen entry time good) (weaker : ∀ bytes, good bytes → other bytes) : Dated seen entry time other :=
  ⟨dated.1, fun bytes shown => weaker bytes (dated.2 bytes shown)⟩

theorem shownAt_of_read {disk : Tree} {path : PathBuf} {content bytes : Bytes} {time : Int}
    (read : disk.read path = .ok content) (shown : shownAt disk path = some (bytes, time)) : bytes = content := by
  unfold Tree.read at read
  unfold shownAt at shown
  split at shown
  next found =>
    rw [found] at read
    cases read
    cases shown
    rfl
  · cases shown

namespace PushRace

variable {ρ : Type}

section Invariant

variable (env : Env ρ) (view : ρ → Text → Option RemoteEntry) (relationship : SyncRelationship) (paths : Set PathBuf)

/-- The remote does not hold a symlink at the path. -/
def Unlinked (s : PushRace ρ) (path : Text) : Prop := ∀ target, view s.push.world.remote path ≠ some (.symlink target)

/-- The remote holds what the record tells, and a file with the size and the time of the record of a file has its
content. -/
def Good (s : PushRace ρ) (path : Text) (record : FileSyncMeta) : Prop :=
  Holds env.digest (view s.push.world.remote) path record.contentHash ∧ (Unlinked view s path →
    ∀ entry ∈ paths, relationship.remotePathOf entry = path → Dated s.seen entry record.modifiedAt fun bytes =>
      bytes.length = record.size → env.digest bytes = record.contentHash)

structure Asked (s : PushRace ρ) (entry : PathBuf) (request : PushFilePrepRequest) : Prop where
  entryPath : request.entryPath = entry
  remotePath : request.remotePath = relationship.remotePathOf entry
  dated : Dated s.seen entry request.modifiedAt fun _ => True
  held : ∀ record, request.storedMeta = some record →
    Holds env.digest (view s.push.world.remote) (relationship.remotePathOf entry) record.contentHash

structure Carried (s : PushRace ρ) (entry : PathBuf) (bytes : Bytes) (file : PendingPushFile) : Prop where
  localPath : file.localPath = entry
  remotePath : file.remotePath = relationship.remotePathOf entry
  contentHash : file.contentHash = env.digest bytes
  fileSize : file.fileSize = bytes.length
  dated : Dated s.seen entry file.modifiedAt (· = bytes)

structure Pointed (entry : PathBuf) (link : PendingSymlink) : Prop where
  remotePath : link.remotePath = relationship.remotePathOf entry
  contentHash : link.contentHash = symlinkIdentityHash env.digest link.remotePath link.target

/-- The remote holds a symlink with this identity at the path. -/
def HoldsLink (s : PushRace ρ) (path hash : Text) : Prop :=
  ∃ stored, view s.push.world.remote path = some (.symlink stored) ∧ symlinkIdentityHash env.digest path stored = hash

/-- What is known of an entry that has come this far. -/
def StageSound (s : PushRace ρ) (entry : PathBuf) : FileStage → Prop
  | .statted content => ∀ record,
      s.push.world.store.files.find (relationship.remotePathOf entry) = some record →
      Unlinked view s (relationship.remotePathOf entry) → Dated s.seen entry record.modifiedAt (· = content)
  | .requested request => Asked env view relationship s entry request
  | .hashed bytes request file => Asked env view relationship s entry request ∧
      Carried env relationship s entry bytes file
  | .waiting bytes file chunks landed => Carried env relationship s entry bytes file ∧
      (∀ hashes, chunks = some hashes → Planned env s.config file (commitFileOf file hashes)) ∧
      (landed = true → relationship.remotePathOf entry ∈ s.acknowledged)
  | .accepted bytes file => Carried env relationship s entry bytes file ∧
      Holds env.digest (view s.push.world.remote) (relationship.remotePathOf entry) file.contentHash ∧
      relationship.remotePathOf entry ∈ s.acknowledged
  | .pointed _ => True
  | .queued link => Pointed env relationship entry link
  | .linked link _ => Pointed env relationship entry link ∧
      HoldsLink env view s (relationship.remotePathOf entry) link.contentHash ∧
      relationship.remotePathOf entry ∈ s.acknowledged

/-- What has been sent has arrived. -/
def Arrived (s : PushRace ρ) (entry : PathBuf) : FileStage → Prop
  | .waiting _ file _ _ =>
      Holds env.digest (view s.push.world.remote) (relationship.remotePathOf entry) file.contentHash
  | .queued link => HoldsLink env view s (relationship.remotePathOf entry) link.contentHash
  | _ => False

/-- The record of the entry may still be asked for in this push. -/
def Open (s : PushRace ρ) (entry : PathBuf) : Prop :=
  entry ∉ s.visited ∨ ∃ content, s.stages entry = some (.statted content)

/-- The remote has changed at the path, and the record is still to be written. -/
def Ahead (s : PushRace ρ) (path : Text) : Prop :=
  (∃ entry stage, s.stages entry = some stage ∧ stage.landed = true ∧ relationship.remotePathOf entry = path) ∨
    path ∈ s.acknowledged ∧ ∃ record ∈ s.push.pendingMetadataUpdates, record.path = path

/-- Every path where the remote is ahead is new to the records. -/
def Settled (s : PushRace ρ) : Prop := ∀ path, Ahead relationship s path → s.push.world.store.files.find path = none

/-- Nothing else on its way takes it for granted that the remote holds something at the path. -/
def Free (s : PushRace ρ) (entry : PathBuf) (old : Text) : Prop :=
  (∀ record ∈ s.push.pendingMetadataUpdates, record.path ≠ old) ∧ ∀ other stage, other ≠ entry →
    s.stages other = some stage → stage.relies = true → relationship.remotePathOf other ≠ old

structure Sound (hashPrefix : Text) (s : PushRace ρ) : Prop where
  stored : ∀ path, ¬ Ahead relationship s path → ∀ record, s.push.world.store.files.find path = some record →
    Good env view relationship paths s path record
  pending : ∀ record ∈ s.push.pendingMetadataUpdates, s.phase = .files ∧ ∃ entry ∈ paths, entry ∈ s.visited ∧
    s.stages entry = none ∧ relationship.remotePathOf entry = record.path ∧
    Good env view relationship paths s record.path record
  mirror : s.phase = .files → ∀ entry ∈ paths, s.Open entry →
    s.push.metadataByPath.find (relationship.remotePathOf entry) =
      s.push.world.store.files.find (relationship.remotePathOf entry)
  staged : ∀ entry stage, s.stages entry = some stage → s.phase = .files ∧ entry ∈ paths ∧ entry ∈ s.visited ∧
    StageSound env view relationship s entry stage
  config : s.phase = .files → s.config.chunkHashPrefix = hashPrefix

/-- The step does nothing to what is known of the entry. -/
structure Leaves (s next : PushRace ρ) (entry : PathBuf) : Prop where
  dated : ∀ time good, Dated s.seen entry time good → Dated next.seen entry time good
  there : view next.push.world.remote (relationship.remotePathOf entry) =
    view s.push.world.remote (relationship.remotePathOf entry)
  files : ∀ record, next.push.world.store.files.find (relationship.remotePathOf entry) = some record →
    s.push.world.store.files.find (relationship.remotePathOf entry) = some record
  acknowledged : relationship.remotePathOf entry ∈ s.acknowledged →
    relationship.remotePathOf entry ∈ next.acknowledged
  config : next.config = s.config

end Invariant

variable {env : Env ρ} {view : ρ → Text → Option RemoteEntry} {relationship : SyncRelationship} {paths : Set PathBuf}
  {hashPrefix : Text} {s next : PushRace ρ} {push : PushState ρ} {entry : PathBuf} {stage : FileStage}

theorem Good.step {path : Text} {record : FileSyncMeta} (good : Good env view relationship paths s path record)
    (there : view next.push.world.remote path = view s.push.world.remote path)
    (dated : ∀ entry ∈ paths, ∀ time good, Dated s.seen entry time good → Dated next.seen entry time good) :
    Good env view relationship paths next path record :=
  ⟨good.1.congr there, fun unlinked entry inside own =>
    dated entry inside _ _ (good.2 (fun target => there ▸ unlinked target) entry inside own)⟩

namespace Leaves

variable (leaves : Leaves view relationship s next entry)
include leaves

theorem asked {request : PushFilePrepRequest} (asked : Asked env view relationship s entry request) :
    Asked env view relationship next entry request :=
  { asked with
    dated := leaves.dated _ _ asked.dated
    held := fun record known => (asked.held record known).congr leaves.there }

theorem carried {bytes : Bytes} {file : PendingPushFile} (carried : Carried env relationship s entry bytes file) :
    Carried env relationship next entry bytes file :=
  { carried with dated := leaves.dated _ _ carried.dated }

theorem sound (sound : StageSound env view relationship s entry stage) :
    StageSound env view relationship next entry stage := by
  cases stage with
  | statted content =>
      exact fun record known unlinked => leaves.dated _ _
        (sound record (leaves.files record known) fun target => leaves.there ▸ unlinked target)
  | requested request => exact leaves.asked sound
  | hashed bytes request file => exact ⟨leaves.asked sound.1, leaves.carried sound.2⟩
  | waiting bytes file chunks landed =>
      refine ⟨leaves.carried sound.1, fun hashes known => ?_, fun arrived => leaves.acknowledged (sound.2.2 arrived)⟩
      rw [leaves.config]
      exact sound.2.1 hashes known
  | accepted bytes file => exact ⟨leaves.carried sound.1, sound.2.1.congr leaves.there, leaves.acknowledged sound.2.2⟩
  | pointed modified => exact trivial
  | queued link => exact sound
  | linked link pushed =>
      obtain ⟨pointed, ⟨stored, present, same⟩, known⟩ := sound
      exact ⟨pointed, ⟨stored, leaves.there.trans present, same⟩, leaves.acknowledged known⟩

end Leaves

theorem Arrived.landed {pushed : Bool} (arrived : Arrived env view relationship s entry stage) :
    (stage.accept pushed).landed = true := by
  cases stage with
  | waiting | queued => rfl
  | statted | requested | hashed | accepted | pointed | linked => exact arrived.elim

/-- A stage that takes nothing for granted stays sound where the record is gone. -/
theorem aloof_sound (aloof : stage.relies = false)
    (gone : next.push.world.store.files.find (relationship.remotePathOf entry) = none)
    (dated : ∀ time good, Dated s.seen entry time good → Dated next.seen entry time good)
    (acknowledged : next.acknowledged = s.acknowledged) (config : next.config = s.config)
    (sound : StageSound env view relationship s entry stage) : StageSound env view relationship next entry stage := by
  have asked : ∀ request, Asked env view relationship s entry request → request.storedMeta.isSome = false →
      Asked env view relationship next entry request := by
    intro request asked none
    refine { asked with dated := dated _ _ asked.dated, held := fun record known => ?_ }
    rw [known] at none
    cases none
  have carried : ∀ bytes file, Carried env relationship s entry bytes file →
      Carried env relationship next entry bytes file := fun _ _ carried =>
    { carried with dated := dated _ _ carried.dated }
  cases stage with
  | statted content =>
      intro record known
      rw [gone] at known
      cases known
  | requested request => exact asked request sound aloof
  | hashed bytes request file => exact ⟨asked request sound.1 aloof, carried bytes file sound.2⟩
  | waiting bytes file chunks landed =>
      refine ⟨carried bytes file sound.1, ?_, ?_⟩
      · rw [config]
        exact sound.2.1
      · rw [acknowledged]
        exact sound.2.2
  | accepted | linked => cases aloof
  | pointed modified => exact trivial
  | queued link => exact sound

theorem seen_unaffected {paths : List Text} (alike : Unaffected view paths s.push push) : (s.withPush push).seen = s.seen := by
  show (⟨push.world.disk, s.past, []⟩ : Seen) = ⟨s.push.world.disk, s.past, []⟩
  rw [alike.disk]

/-- A step that does nothing to the two sides leaves every entry alone. -/
theorem leaves_unaffected (alike : Unaffected view [] s.push push) (entry : PathBuf) :
    Leaves view relationship s (s.withPush push) entry where
  dated := by
    rw [seen_unaffected alike]
    exact fun _ _ => id
  there := alike.there _ List.not_mem_nil
  files := by
    show ∀ record, push.world.store.files.find _ = some record → _
    rw [alike.files]
    exact fun _ => id
  acknowledged := id
  config := rfl

theorem Sound.alike (sound : Sound env view relationship paths hashPrefix s) (alike : Unaffected view [] s.push push) :
    Sound env view relationship paths hashPrefix (s.withPush push) := by
  have kept : ∀ {path record}, Good env view relationship paths s path record →
      Good env view relationship paths (s.withPush push) path record := by
    intro path record good
    refine good.step (alike.there _ List.not_mem_nil) fun entry _ => ?_
    have leaves : Leaves view relationship s (s.withPush push) entry := leaves_unaffected alike entry
    exact leaves.dated
  constructor
  · intro path behind record known
    change push.world.store.files.find path = some record at known
    rw [alike.files] at known
    refine kept (sound.stored path (fun ahead => behind (ahead.imp_right (And.imp_right ?_))) record known)
    show _ → ∃ record ∈ push.pendingMetadataUpdates, record.path = path
    rw [alike.pending]
    exact id
  · intro record waits
    change record ∈ push.pendingMetadataUpdates at waits
    rw [alike.pending] at waits
    obtain ⟨phase, entry, inside, seen, done, own, good⟩ := sound.pending record waits
    exact ⟨phase, entry, inside, seen, done, own, kept good⟩
  · intro phase entry inside isOpen
    show push.metadataByPath.find _ = push.world.store.files.find _
    rw [alike.mirror, alike.files]
    exact sound.mirror phase entry inside isOpen
  · intro entry stage current
    obtain ⟨phase, inside, seen, known⟩ := sound.staged entry stage current
    exact ⟨phase, inside, seen, (leaves_unaffected alike entry).sound known⟩
  · exact sound.config

/-- One file comes a step further, and the two sides stay as they are. -/
theorem Sound.setStage (sound : Sound env view relationship paths hashPrefix s)
    (current : s.stages entry = some stage)
    (new : Option FileStage) (unstatted : ∀ content, new ≠ some (.statted content))
    (fresh : ∀ after, new = some after → StageSound env view relationship s entry after)
    (landed : stage.landed = true → s.push.world.store.files.find (relationship.remotePathOf entry) = none ∨
      ∃ after, new = some after ∧ after.landed = true) :
    Sound env view relationship paths hashPrefix (s.setStage entry new) := by
  have others : ∀ other, other ≠ entry → (s.setStage entry new).stages other = s.stages other := fun other apart =>
    Function.update_of_ne apart ..
  have own : (s.setStage entry new).stages entry = new := Function.update_self ..
  have leaves : ∀ other, Leaves view relationship s (s.setStage entry new) other := fun other =>
    ⟨fun _ _ => id, rfl, fun _ => id, id, rfl⟩
  obtain ⟨phase, inside, seen, -⟩ := sound.staged entry stage current
  constructor
  · intro path behind record known
    refine sound.stored path (fun ahead => ?_) record known
    rcases ahead with ⟨other, before, found, arrived, rfl⟩ | waits
    · by_cases equal : other = entry
      · subst equal
        rw [current, Option.some.injEq] at found
        subst found
        rcases landed arrived with missing | ⟨after, now, still⟩
        · rw [show s.push.world.store.files.find _ = some record from known] at missing
          cases missing
        · exact behind (Or.inl ⟨other, after, own.trans now, still, rfl⟩)
      · exact behind (Or.inl ⟨other, before, (others other equal).trans found, arrived, rfl⟩)
    · exact behind (Or.inr waits)
  · intro record waits
    obtain ⟨phase, other, among, visited, done, same, good⟩ := sound.pending record waits
    have apart : other ≠ entry := by
      rintro rfl
      rw [current] at done
      cases done
    exact ⟨phase, other, among, visited, (others other apart).trans done, same, good⟩
  · intro _ other among isOpen
    refine sound.mirror phase other among (isOpen.imp_right ?_)
    rintro ⟨content, statted⟩
    by_cases equal : other = entry
    · subst equal
      exact absurd (own.symm.trans statted) (unstatted content)
    · exact ⟨content, (others other equal).symm.trans statted⟩
  · intro other after found
    by_cases equal : other = entry
    · subst equal
      exact ⟨phase, inside, seen, (leaves other).sound (fresh after (own.symm.trans found))⟩
    · obtain ⟨files, among, visited, known⟩ := sound.staged other after ((others other equal).symm.trans found)
      exact ⟨files, among, visited, (leaves other).sound known⟩
  · exact sound.config

section Distinct

variable (distinct : Set.InjOn relationship.remotePathOf paths)
include distinct

/-- The record of a file that the remote holds is good. -/
theorem Carried.good {bytes : Bytes} {file : PendingPushFile} (carried : Carried env relationship s entry bytes file)
    (inside : entry ∈ paths)
    (held : Holds env.digest (view s.push.world.remote) (relationship.remotePathOf entry) file.contentHash)
    (time : Int) :
    Good env view relationship paths s (relationship.remotePathOf entry) (syncedMeta file time) := by
  refine ⟨held, fun _ other among same => ?_⟩
  obtain rfl := distinct among inside same
  apply carried.dated.mono
  rintro bytes rfl -
  exact carried.contentHash.symm

/-- A record joins those that wait to be written, and its entry is done with. -/
theorem Sound.queued (sound : Sound env view relationship paths hashPrefix s) {record : FileSyncMeta}
    (current : s.stages entry = some stage) (named : record.path = relationship.remotePathOf entry)
    (landed : stage.landed = true → relationship.remotePathOf entry ∈ s.acknowledged)
    (fresh : Good env view relationship paths s record.path record) (disk : push.world.disk = s.push.world.disk)
    (files : push.world.store.files = s.push.world.store.files)
    (there : view push.world.remote = view s.push.world.remote)
    (mirror : push.metadataByPath = s.push.metadataByPath.set record)
    (pending : push.pendingMetadataUpdates = s.push.pendingMetadataUpdates ++ [record]) :
    Sound env view relationship paths hashPrefix ((s.withPush push).setStage entry none) := by
  have same_seen : ((s.withPush push).setStage entry none).seen = s.seen := by
    show (⟨push.world.disk, s.past, []⟩ : Seen) = ⟨s.push.world.disk, s.past, []⟩
    rw [disk]
  have dated : ∀ other time good, Dated s.seen other time good →
      Dated ((s.withPush push).setStage entry none).seen other time good := by
    rw [same_seen]
    exact fun _ _ _ => id
  have others : ∀ other, other ≠ entry → ((s.withPush push).setStage entry none).stages other = s.stages other :=
    fun other apart => Function.update_of_ne apart ..
  have own : ((s.withPush push).setStage entry none).stages entry = none := Function.update_self ..
  have kept : ∀ {path record}, Good env view relationship paths s path record →
      Good env view relationship paths ((s.withPush push).setStage entry none) path record := fun good =>
    good.step (congrFun there _) fun other _ => dated other
  obtain ⟨phase, inside, seen, -⟩ := sound.staged entry stage current
  constructor
  · intro path behind update known
    change push.world.store.files.find path = some update at known
    rw [files] at known
    refine kept (sound.stored path (fun ahead => behind ?_) update known)
    show _ ∨ _ ∧ ∃ update ∈ push.pendingMetadataUpdates, update.path = path
    rw [pending]
    rcases ahead with ⟨other, before, found, arrived, rfl⟩ | ⟨listed, update, waits, titled⟩
    · by_cases equal : other = entry
      · subst equal
        rw [current, Option.some.injEq] at found
        subst found
        exact Or.inr ⟨landed arrived, record, List.mem_append_right _ List.mem_cons_self, named⟩
      · exact Or.inl ⟨other, before, (others other equal).trans found, arrived, rfl⟩
    · exact Or.inr ⟨listed, update, List.mem_append_left _ waits, titled⟩
  · intro update waits
    change update ∈ push.pendingMetadataUpdates at waits
    rw [pending, List.mem_append, List.mem_singleton] at waits
    rcases waits with old | rfl
    · obtain ⟨phase, other, among, visited, done, same, good⟩ := sound.pending update old
      have apart : other ≠ entry := by
        rintro rfl
        rw [current] at done
        cases done
      exact ⟨phase, other, among, visited, (others other apart).trans done, same, kept good⟩
    · exact ⟨phase, entry, inside, seen, own, named.symm, kept fresh⟩
  · intro _ other among isOpen
    have apart : other ≠ entry := by
      rintro rfl
      rcases isOpen with unseen | ⟨content, statted⟩
      · exact unseen seen
      · rw [own] at statted
        cases statted
    show push.metadataByPath.find _ = push.world.store.files.find _
    rw [mirror, files, Records.find_set, named, if_neg fun same => apart (distinct among inside same)]
    refine sound.mirror phase other among (isOpen.imp_right ?_)
    rintro ⟨content, statted⟩
    exact ⟨content, (others other apart).symm.trans statted⟩
  · intro other after found
    have apart : other ≠ entry := by
      rintro rfl
      rw [own] at found
      cases found
    obtain ⟨running, among, visited, known⟩ := sound.staged other after ((others other apart).symm.trans found)
    refine ⟨running, among, visited, Leaves.sound ⟨dated other, congrFun there _, ?_, id, rfl⟩ known⟩
    show ∀ record, push.world.store.files.find _ = some record → _
    rw [files]
    exact fun _ => id
  · exact sound.config

/-- What was sent has been acknowledged. -/
theorem Sound.accepted (sound : Sound env view relationship paths hashPrefix s) (entries : List PathBuf)
    {pushed : Bool}
    (alike : Unaffected view (entries.map relationship.remotePathOf) s.push push)
    (arrived : ∀ entry ∈ entries, ∃ stage, s.stages entry = some stage ∧
      Arrived env view relationship (s.withPush push) entry stage) :
    Sound env view relationship paths hashPrefix (PushRace.landed (entries.map relationship.remotePathOf)
      { s.withPush push with stages := fun entry =>
          if entry ∈ entries then (s.stages entry).map (FileStage.accept · pushed) else s.stages entry }) := by
  have member : ∀ entry ∈ entries, entry ∈ paths := by
    intro entry among
    obtain ⟨stage, current, -⟩ := arrived entry among
    exact (sound.staged entry _ current).2.1
  have apart : ∀ other ∈ paths, other ∉ entries →
      relationship.remotePathOf other ∉ entries.map relationship.remotePathOf := by
    intro other inside outside listed
    obtain ⟨entry, among, same⟩ := List.mem_map.mp listed
    exact outside (distinct (member entry among) inside same ▸ among)
  have dated : ∀ other time good, Dated s.seen other time good → Dated (s.withPush push).seen other time good := by
    rw [seen_unaffected alike]
    exact fun _ _ _ => id
  constructor
  · intro path behind record known
    change push.world.store.files.find path = some record at known
    rw [alike.files] at known
    have outside : path ∉ entries.map relationship.remotePathOf := by
      intro listed
      obtain ⟨entry, among, rfl⟩ := List.mem_map.mp listed
      obtain ⟨stage, current, there⟩ := arrived entry among
      exact behind (Or.inl ⟨entry, stage.accept pushed, (if_pos among).trans (by rw [current]; rfl),
        Arrived.landed there, rfl⟩)
    refine (sound.stored path (fun ahead => behind ?_) record known).step (alike.there path outside)
      fun other _ => dated other
    rcases ahead with ⟨other, before, found, landed, rfl⟩ | ⟨listed, waits⟩
    · have absent : other ∉ entries := fun among => outside (List.mem_map_of_mem among)
      exact Or.inl ⟨other, before, (if_neg absent).trans found, landed, rfl⟩
    · refine Or.inr ⟨List.mem_append_right _ listed, ?_⟩
      show ∃ update ∈ push.pendingMetadataUpdates, update.path = path
      rw [alike.pending]
      exact waits
  · intro record waits
    change record ∈ push.pendingMetadataUpdates at waits
    rw [alike.pending] at waits
    obtain ⟨phase, other, inside, visited, done, same, good⟩ := sound.pending record waits
    have outside : other ∉ entries := by
      intro among
      obtain ⟨stage, current, -⟩ := arrived other among
      rw [current] at done
      cases done
    refine ⟨phase, other, inside, visited, (if_neg outside).trans done, same, ?_⟩
    exact good.step (alike.there _ (same ▸ apart other inside outside)) fun other _ => dated other
  · intro phase other inside isOpen
    show push.metadataByPath.find _ = push.world.store.files.find _
    rw [alike.mirror, alike.files]
    refine sound.mirror phase other inside (isOpen.imp_right ?_)
    rintro ⟨content, statted⟩
    by_cases among : other ∈ entries
    · obtain ⟨stage, current, there⟩ := arrived other among
      change (if other ∈ entries then (s.stages other).map (FileStage.accept · pushed) else s.stages other) = _
        at statted
      rw [if_pos among, current] at statted
      cases stage with
      | waiting | queued => cases statted
      | statted | requested | hashed | accepted | pointed | linked => exact there.elim
    · exact ⟨content, (if_neg among).symm.trans statted⟩
  · intro other after found
    change (if other ∈ entries then (s.stages other).map (FileStage.accept · pushed) else s.stages other) = _ at found
    by_cases among : other ∈ entries
    · obtain ⟨stage, current, there⟩ := arrived other among
      obtain ⟨phase, inside, visited, known⟩ := sound.staged other _ current
      have listed : relationship.remotePathOf other ∈ entries.map relationship.remotePathOf ++ s.acknowledged :=
        List.mem_append_left _ (List.mem_map_of_mem among)
      rw [if_pos among, current] at found
      refine ⟨phase, inside, visited, ?_⟩
      cases stage with
      | waiting bytes file chunks landed =>
          cases found
          exact ⟨{ known.1 with dated := dated _ _ _ known.1.dated }, there, listed⟩
      | queued link =>
          cases found
          exact ⟨known, there, listed⟩
      | statted | requested | hashed | accepted | pointed | linked => exact there.elim
    · rw [if_neg among] at found
      obtain ⟨phase, inside, visited, known⟩ := sound.staged other after found
      refine ⟨phase, inside, visited, Leaves.sound ⟨dated other, alike.there _ (apart other inside among), ?_,
        List.mem_append_right _, rfl⟩ known⟩
      show ∀ record, push.world.store.files.find _ = some record → _
      rw [alike.files]
      exact fun _ => id
  · exact sound.config

theorem Sound.landed (sound : Sound env view relationship paths hashPrefix s) (pushed : Bool)
    (current : s.stages entry = some stage) (alike : Unaffected view [relationship.remotePathOf entry] s.push push)
    (arrived : Arrived env view relationship (s.withPush push) entry stage) :
    Sound env view relationship paths hashPrefix (PushRace.landed [relationship.remotePathOf entry]
      ((s.withPush push).setStage entry (some (stage.accept pushed)))) := by
  have stages : Function.update s.stages entry (some (stage.accept pushed)) = fun other =>
      if other ∈ [entry] then (s.stages other).map (FileStage.accept · pushed) else s.stages other := by
    funext other
    by_cases same : other = entry
    · subst same
      rw [Function.update_self, if_pos List.mem_cons_self, current]
      rfl
    · rw [Function.update_of_ne same, if_neg fun among => same (List.mem_singleton.mp among)]
  show Sound env view relationship paths hashPrefix (PushRace.landed [relationship.remotePathOf entry]
    { s.withPush push with stages := Function.update s.stages entry (some (stage.accept pushed)) })
  rw [stages]
  refine sound.accepted distinct [entry] alike fun other among => ?_
  rw [List.mem_singleton.mp among]
  exact ⟨stage, current, arrived⟩

/-- The paths of the entries that are not done with have no record that waits. -/
theorem Sound.unqueued (sound : Sound env view relationship paths hashPrefix s) (inside : entry ∈ paths)
    (open_or_staged : s.Open entry ∨ s.stages entry ≠ none) :
    ∀ record ∈ s.push.pendingMetadataUpdates, record.path ≠ relationship.remotePathOf entry := by
  intro record waits same
  obtain ⟨-, other, among, visited, done, titled, -⟩ := sound.pending record waits
  obtain rfl := distinct among inside (titled.trans same)
  rcases open_or_staged with (unseen | ⟨content, statted⟩) | current
  · exact unseen visited
  · rw [done] at statted
    cases statted
  · exact current done

/-- The records that waited have been written. -/
theorem Sound.flushed (sound : Sound env view relationship paths hashPrefix s)
    (disk : push.world.disk = s.push.world.disk) (there : view push.world.remote = view s.push.world.remote)
    (mirror : push.metadataByPath = s.push.metadataByPath) (pending : push.pendingMetadataUpdates = [])
    (files : push.world.store.files =
      s.push.world.store.files.setAll (coalesceFileMetas s.push.pendingMetadataUpdates)) :
    Sound env view relationship paths hashPrefix (s.withPush push) := by
  have dated : ∀ other time good, Dated s.seen other time good →
      Dated (s.withPush push).seen other time good := by
    show ∀ other time good, _ → Dated (⟨push.world.disk, s.past, []⟩ : Seen) other time good
    rw [disk]
    exact fun _ _ _ => id
  have kept : ∀ {path record}, Good env view relationship paths s path record →
      Good env view relationship paths (s.withPush push) path record :=
    fun good => good.step (congrFun there _) fun other _ => dated other
  have untouched : ∀ path, (∀ record ∈ s.push.pendingMetadataUpdates, record.path ≠ path) →
      push.world.store.files.find path = s.push.world.store.files.find path := by
    intro path absent
    rw [files]
    exact Records.find_setAll_other fun record inside => absent record (mem_coalesceFileMetas inside)
  constructor
  · intro path behind record known
    change push.world.store.files.find path = some record at known
    by_cases waits : ∃ update ∈ s.push.pendingMetadataUpdates, update.path = path
    · obtain ⟨update, listed, rfl⟩ := waits
      obtain ⟨last, among, same, found⟩ := Records.find_setAll_covered s.push.world.store.files
        (coalesceFileMetas_covers listed)
      rw [files, found, Option.some.injEq] at known
      subst known
      obtain ⟨-, -, -, -, -, -, good⟩ := sound.pending last (mem_coalesceFileMetas among)
      exact kept (same ▸ good)
    · have absent : ∀ update ∈ s.push.pendingMetadataUpdates, update.path ≠ path :=
        fun update listed same => waits ⟨update, listed, same⟩
      rw [untouched path absent] at known
      refine kept (sound.stored path (fun ahead => behind (Or.inl (ahead.resolve_right ?_))) record known)
      rintro ⟨-, update, listed, same⟩
      exact absent update listed same
  · intro record waits
    change record ∈ push.pendingMetadataUpdates at waits
    rw [pending] at waits
    cases waits
  · intro phase other inside isOpen
    show push.metadataByPath.find _ = push.world.store.files.find _
    rw [mirror, untouched _ (sound.unqueued distinct inside (Or.inl isOpen))]
    exact sound.mirror phase other inside isOpen
  · intro other after found
    change s.stages other = some after at found
    obtain ⟨phase, inside, visited, known⟩ := sound.staged other after found
    have absent := sound.unqueued distinct inside (Or.inr (by rw [found]; exact Option.some_ne_none _))
    refine ⟨phase, inside, visited, Leaves.sound ⟨dated other, congrFun there _, ?_, id, rfl⟩ known⟩
    show ∀ record, push.world.store.files.find _ = some record → _
    rw [untouched _ absent]
    exact fun _ => id
  · exact sound.config

/-- A file has been moved, or found where it belongs. -/
theorem Sound.refiled (sound : Sound env view relationship paths hashPrefix s) {old : Text} {bytes : Bytes}
    {file : PendingPushFile} (current : s.stages entry = some stage) (waits : stage.landed = false)
    (carried : Carried env relationship s entry bytes file) (refiled : Refiled env view old file s.push push)
    (free : view push.world.remote old = view s.push.world.remote old ∨ Free relationship s entry old) :
    Sound env view relationship paths hashPrefix ((s.withPush push).setStage entry none) := by
  obtain ⟨phase, inside, seen, -⟩ := sound.staged entry stage current
  have named := carried.remotePath
  have dated : ∀ other time good, Dated s.seen other time good →
      Dated ((s.withPush push).setStage entry none).seen other time good := by
    show ∀ other time good, _ → Dated (⟨push.world.disk, s.past, []⟩ : Seen) other time good
    rw [refiled.disk]
    exact fun _ _ _ => id
  have others : ∀ other, other ≠ entry → ((s.withPush push).setStage entry none).stages other = s.stages other :=
    fun other apart => Function.update_of_ne apart ..
  have own : ((s.withPush push).setStage entry none).stages entry = none := Function.update_self ..
  have files : ∀ other ∈ paths, other ≠ entry → ∀ record,
      push.world.store.files.find (relationship.remotePathOf other) = some record →
      s.push.world.store.files.find (relationship.remotePathOf other) = some record := by
    intro other among apart record known
    have notOwn : relationship.remotePathOf other ≠ file.remotePath := fun same =>
      apart (distinct among inside (same.trans named))
    by_cases left : relationship.remotePathOf other = old
    · rw [left] at known notOwn ⊢
      rcases (refiled.left notOwn).2 with gone | ⟨same, -⟩
      · rw [gone] at known
        cases known
      · exact same.symm.trans known
    · exact (refiled.other _ left notOwn).2.1.symm.trans known
  constructor
  · intro path behind record known
    change push.world.store.files.find path = some record at known
    have level : path ≠ file.remotePath → ¬ Ahead relationship s path := by
      rintro - (⟨other, before, found, landed, rfl⟩ | ⟨acknowledged, queued⟩)
      · have apart : other ≠ entry := by
          rintro rfl
          rw [current, Option.some.injEq] at found
          rw [← found, waits] at landed
          cases landed
        exact behind (Or.inl ⟨other, before, (others other apart).trans found, landed, rfl⟩)
      · refine behind (Or.inr ⟨acknowledged, ?_⟩)
        show ∃ update ∈ push.pendingMetadataUpdates, update.path = path
        rw [refiled.pending]
        exact queued
    by_cases mine : path = file.remotePath
    · obtain ⟨time, written⟩ := refiled.own
      rw [mine, written, Option.some.injEq] at known
      subst known
      have moved : Carried env relationship ((s.withPush push).setStage entry none) entry bytes file :=
        { carried with dated := dated _ _ _ carried.dated }
      rw [mine, named]
      exact moved.good distinct inside (named ▸ refiled.held) time
    · by_cases left : path = old
      · subst left
        rcases (refiled.left mine).2 with gone | ⟨same, -, there⟩
        · rw [gone] at known
          cases known
        · exact (sound.stored path (level mine) record (same.symm.trans known)).step there fun other _ => dated other
      · obtain ⟨there, same, -⟩ := refiled.other path left mine
        exact (sound.stored path (level mine) record (same.symm.trans known)).step there fun other _ => dated other
  · intro record listed
    change record ∈ push.pendingMetadataUpdates at listed
    rw [refiled.pending] at listed
    obtain ⟨phase, other, among, visited, done, same, good⟩ := sound.pending record listed
    have apart : other ≠ entry := by
      rintro rfl
      rw [current] at done
      cases done
    refine ⟨phase, other, among, visited, (others other apart).trans done, same,
      good.step ?_ fun other _ => dated other⟩
    by_cases left : record.path = old
    · rw [left]
      exact free.resolve_right fun unclaimed => unclaimed.1 record listed left
    · exact (refiled.other _ left fun mine => apart (distinct among inside ((same.trans mine).trans named))).1
  · intro _ other among isOpen
    have apart : other ≠ entry := by
      rintro rfl
      rcases isOpen with unseen | ⟨content, statted⟩
      · exact unseen seen
      · rw [own] at statted
        cases statted
    have before : s.Open other := isOpen.imp_right fun ⟨content, statted⟩ =>
      ⟨content, (others other apart).symm.trans statted⟩
    have equal := sound.mirror phase other among before
    have notOwn : relationship.remotePathOf other ≠ file.remotePath := fun same =>
      apart (distinct among inside (same.trans named))
    show push.metadataByPath.find _ = push.world.store.files.find _
    by_cases left : relationship.remotePathOf other = old
    · rw [left] at equal notOwn ⊢
      obtain ⟨forgotten, gone | ⟨same, unknown, -⟩⟩ := refiled.left notOwn
      · rw [forgotten, gone]
      · rw [forgotten, same, ← equal, unknown]
    · obtain ⟨-, same, copy⟩ := refiled.other _ left notOwn
      rw [same, copy, equal]
  · intro other after found
    have apart : other ≠ entry := by
      rintro rfl
      rw [own] at found
      cases found
    have before := (others other apart).symm.trans found
    obtain ⟨running, among, visited, known⟩ := sound.staged other after before
    have notOwn : relationship.remotePathOf other ≠ file.remotePath := fun same =>
      apart (distinct among inside (same.trans named))
    have left : view push.world.remote (relationship.remotePathOf other) =
        view s.push.world.remote (relationship.remotePathOf other) ∨ after.relies = false ∧
          push.world.store.files.find (relationship.remotePathOf other) = none := by
      by_cases left : relationship.remotePathOf other = old
      · rw [left] at notOwn ⊢
        rcases (refiled.left notOwn).2 with gone | ⟨-, -, there⟩
        · refine free.imp_right fun unclaimed => ⟨Bool.eq_false_iff.mpr fun relies => ?_, gone⟩
          exact unclaimed.2 other after apart before relies left
        · exact Or.inl there
      · exact Or.inl (refiled.other _ left notOwn).1
    refine ⟨running, among, visited, ?_⟩
    rcases left with there | ⟨aloof, gone⟩
    · exact Leaves.sound ⟨dated other, there, files other among apart, id, rfl⟩ known
    · exact aloof_sound aloof gone (dated other) rfl rfl known
  · exact sound.config

end Distinct

/-- An entry has been looked at. -/
theorem Sound.entered (sound : Sound env view relationship paths hashPrefix s) (inside : entry ∈ paths)
    (phase : s.phase = .files) (unseen : entry ∉ s.visited) (first : StageSound env view relationship s entry stage) :
    Sound env view relationship paths hashPrefix
      ({ s with visited := entry :: s.visited }.setStage entry (some stage)) := by
  have others : ∀ other, other ≠ entry →
      ({ s with visited := entry :: s.visited }.setStage entry (some stage)).stages other = s.stages other :=
    fun other apart => Function.update_of_ne apart ..
  have own : ({ s with visited := entry :: s.visited }.setStage entry (some stage)).stages entry = some stage :=
    Function.update_self ..
  have leaves : ∀ other, Leaves view relationship s
      ({ s with visited := entry :: s.visited }.setStage entry (some stage)) other := fun other =>
    ⟨fun _ _ => id, rfl, fun _ => id, id, rfl⟩
  have apart : ∀ other ∈ s.visited, other ≠ entry := fun other visited same => unseen (same ▸ visited)
  constructor
  · intro path behind
    refine sound.stored path fun ahead => behind (ahead.imp_left ?_)
    rintro ⟨other, before, found, landed, same⟩
    obtain ⟨-, -, visited, -⟩ := sound.staged other before found
    exact ⟨other, before, (others other (apart other visited)).trans found, landed, same⟩
  · intro record waits
    obtain ⟨running, other, among, visited, done, same, good⟩ := sound.pending record waits
    exact ⟨running, other, among, List.mem_cons_of_mem _ visited,
      (others other (apart other visited)).trans done, same, good⟩
  · intro _ other among isOpen
    refine sound.mirror phase other among ?_
    by_cases equal : other = entry
    · exact Or.inl (equal ▸ unseen)
    · refine isOpen.imp (fun hidden visited => hidden (List.mem_cons_of_mem _ visited)) ?_
      rintro ⟨bytes, statted⟩
      exact ⟨bytes, (others other equal).symm.trans statted⟩
  · intro other after found
    by_cases equal : other = entry
    · subst equal
      rw [own, Option.some.injEq] at found
      subst found
      exact ⟨phase, inside, List.mem_cons_self, (leaves other).sound first⟩
    · obtain ⟨running, among, visited, known⟩ := sound.staged other after ((others other equal).symm.trans found)
      exact ⟨running, among, List.mem_cons_of_mem _ visited, (leaves other).sound known⟩
  · exact sound.config

/-- An entry that turned out to be no file is not looked at again. -/
theorem Sound.visited (sound : Sound env view relationship paths hashPrefix s) (entry : PathBuf) :
    Sound env view relationship paths hashPrefix { s with visited := entry :: s.visited } := by
  have leaves : ∀ other, Leaves view relationship s { s with visited := entry :: s.visited } other := fun other =>
    ⟨fun _ _ => id, rfl, fun _ => id, id, rfl⟩
  constructor
  · exact sound.stored
  · intro record waits
    obtain ⟨phase, other, among, visited, rest⟩ := sound.pending record waits
    exact ⟨phase, other, among, List.mem_cons_of_mem _ visited, rest⟩
  · intro phase other among isOpen
    exact sound.mirror phase other among
      (isOpen.imp_left fun hidden visited => hidden (List.mem_cons_of_mem _ visited))
  · intro other after found
    obtain ⟨phase, among, visited, known⟩ := sound.staged other after found
    exact ⟨phase, among, List.mem_cons_of_mem _ visited, (leaves other).sound known⟩
  · exact sound.config

/-- Others have written to the disk. -/
theorem Sound.written (sound : Sound env view relationship paths hashPrefix s) {disk : Tree}
    (fresh : s.seen.Fresh paths disk) : Sound env view relationship paths hashPrefix (s.written disk) := by
  have follows : s.seen.Follows paths (s.written disk).seen := ⟨rfl, List.Subset.refl _, fresh⟩
  have dated : ∀ other ∈ paths, ∀ time good, Dated s.seen other time good →
      Dated (s.written disk).seen other time good :=
    fun other inside _ _ before => before.step inside follows
  constructor
  · intro path behind record known
    exact (sound.stored path behind record known).step rfl dated
  · intro record waits
    obtain ⟨phase, other, among, visited, done, same, good⟩ := sound.pending record waits
    exact ⟨phase, other, among, visited, done, same, good.step rfl dated⟩
  · exact sound.mirror
  · intro other after found
    obtain ⟨phase, among, visited, known⟩ := sound.staged other after found
    exact ⟨phase, among, visited, Leaves.sound ⟨dated other among, rfl, fun _ => id, id, rfl⟩ known⟩
  · exact sound.config

/-- Outside the file phase nothing is on its way. -/
theorem Sound.quiet (sound : Sound env view relationship paths hashPrefix s) (phase : s.phase ≠ .files) :
    (∀ entry, s.stages entry = none) ∧ s.push.pendingMetadataUpdates = [] := by
  have unstaged : ∀ entry, s.stages entry = none := by
    intro entry
    cases current : s.stages entry with
    | none => rfl
    | some stage => exact absurd (sound.staged entry stage current).1 phase
  refine ⟨unstaged, List.eq_nil_iff_forall_not_mem.mpr fun record waits => ?_⟩
  exact phase (sound.pending record waits).1

theorem not_ahead (unstaged : ∀ entry, s.stages entry = none) (pending : s.push.pendingMetadataUpdates = [])
    (path : Text) : ¬ Ahead relationship s path := by
  rintro (⟨entry, stage, current, -⟩ | ⟨-, record, waits, -⟩)
  · rw [unstaged entry] at current
    cases current
  · rw [pending] at waits
    cases waits

/-- The remote is ahead nowhere once the files have been dealt with. -/
theorem Sound.level_of_quiet (sound : Sound env view relationship paths hashPrefix s) (phase : s.phase ≠ .files)
    (path : Text) : ¬ Ahead relationship s path :=
  not_ahead (sound.quiet phase).1 (sound.quiet phase).2 path

/-- Where nothing is on its way only the stored records matter. -/
theorem sound_of_stored (unstaged : ∀ entry, s.stages entry = none) (pending : s.push.pendingMetadataUpdates = [])
    (stored : ∀ path record, s.push.world.store.files.find path = some record →
      Good env view relationship paths s path record)
    (mirror : s.phase = .files → s.push.metadataByPath = s.push.world.store.files)
    (config : s.phase = .files → s.config.chunkHashPrefix = hashPrefix) :
    Sound env view relationship paths hashPrefix s := by
  constructor
  · exact fun path _ => stored path
  · rw [pending]
    exact fun _ waits => (List.not_mem_nil waits).elim
  · intro phase other _ _
    rw [mirror phase]
  · intro entry stage current
    rw [unstaged entry] at current
    cases current
  · exact config

section Rules

variable (env : Env ρ) (view : ρ → Text → Option RemoteEntry) (relationship : SyncRelationship) (paths : Set PathBuf)
  (s : PushRace ρ)

/-- Every write gives a file a time that it did not have before, and no answer 403 is met. -/
def Premised : RaceAction → Prop
  | .write disk => s.seen.Fresh paths disk
  | .stat entry => entry ∈ paths
  | .fail _ error => isEngineForbidden error = false
  | _ => True

def oldPathOf (legacy : Bool) (request : PushFilePrepRequest) : Option Text :=
  if legacy then request.legacySeparatorRemotePath else request.migrationOldRemotePath

/-- The scan leaves the file alone because of its size and time. -/
def LiteSkips (entry : PathBuf) (content : Bytes) : Prop :=
  s.stages entry = some (.statted content) ∧ ∃ mtime, (onWorld (fileMtime env entry) s.push).1 = .ok (.ok mtime) ∧
    canLiteFastSkip s.mode (s.push.metadataByPath.find (relationship.remotePathOf entry)) content.length mtime = true

/-- The push leaves the file alone because of its hash. -/
def HashSkips (entry : PathBuf) (bytes : Bytes) : Prop :=
  ∃ request file record, s.stages entry = some (.hashed bytes request file) ∧ request.storedMeta = some record ∧
    record.contentHash = file.contentHash

/-- No file is left alone where the remote holds a symlink, no move takes what others count on, a direct upload reads
what was hashed, and no other failure is taken for an answer 403. Where a file fails or a push ends early after the
remote has changed, the records know nothing of the path. -/
def Careful : RaceAction → Prop
  | .date entry => ∀ content, s.LiteSkips env relationship entry content →
      Unlinked view s (relationship.remotePathOf entry)
  | .decide entry => ∀ bytes, s.HashSkips entry bytes → Unlinked view s (relationship.remotePathOf entry)
  | .move entry legacy => ∀ bytes request file, s.stages entry = some (.hashed bytes request file) →
      ∀ old source, oldPathOf legacy request = some old → s.push.metadataByPath.find old = some source →
        source.contentHash = file.contentHash → s.Free relationship entry old
  | .put entry => ∀ bytes file chunks landed body, s.stages entry = some (.waiting bytes file chunks landed) →
      s.disk.read entry = .ok body → body = bytes
  | .fail entry error => isForbidden (relationship.remotePathOf entry) error = false ∧
      (relationship.remotePathOf entry ∈ s.acknowledged →
        s.push.world.store.files.find (relationship.remotePathOf entry) = none) ∧
      ((isTransientPushError error || isUnrecoverablePushError error) = true → Settled relationship s)
  | .stop => s.phase = .files → Settled relationship s
  | _ => True

/-- A file that the step leaves alone is on the remote as the scan has met it. -/
def SkipsTruly : RaceAction → Prop
  | .date entry => ∀ content, s.LiteSkips env relationship entry content →
      view s.push.world.remote (relationship.remotePathOf entry) = some (.file content)
  | .decide entry => ∀ bytes, s.HashSkips entry bytes →
      view s.push.world.remote (relationship.remotePathOf entry) = some (.file bytes)
  | _ => True

end Rules

/-- A push goes on after a program that cannot fail. -/
theorem resume_eq {α : Type} {x : PushProgram ρ α} {P : PushState ρ → Prop} {Q : α → PushState ρ → Prop}
    (triple : Triple P x Q fun _ _ => False) (before : P s.push) (goesOn : α → PushRace ρ → PushRace ρ) :
    ∃ a push, s.resume (x s.push) goesOn = goesOn a (s.withPush push) ∧ Q a push := by
  have outcome := triple s.push before
  rcases answer : x s.push with ⟨result, push⟩
  rw [answer] at outcome
  cases result with
  | error error => exact outcome.elim
  | ok a => exact ⟨a, push, rfl, outcome⟩

theorem commit_of_stage {commit : CommitFile} (named : (s.stages entry).bind FileStage.commit? = some commit) :
    ∃ bytes file chunks landed, s.stages entry = some (.waiting bytes file (some chunks) landed) ∧
      commitFileOf file chunks = commit := by
  obtain ⟨stage, current, found⟩ := Option.bind_eq_some_iff.mp named
  rw [current]
  unfold FileStage.commit? at found
  split at found
  next bytes file chunks landed =>
    cases found
    exact ⟨bytes, file, chunks, landed, rfl, rfl⟩
  · cases found

section Steps

variable (spec : EngineSpec env.digest hashPrefix env.engine view)
    (sound : Sound env view relationship paths hashPrefix s)
include spec sound

theorem begin_sound {mode : PushScanMode} (taken : s.begin env mode = some next) :
    Sound env view relationship paths hashPrefix next := by
  unfold begin at taken
  split at taken
  next idle =>
    obtain ⟨unstaged, pending⟩ := sound.quiet (by rw [idle]; decide)
    have same := spec.blobConfig_view s.push.world.remote
    split at taken
    next config remote answer =>
      rw [answer] at same
      cases taken
      refine sound_of_stored unstaged rfl (fun path record known => ?_) (fun _ => rfl) fun _ => ?_
      · exact (sound.stored path (not_ahead unstaged pending path) record known).step (congrFun same path)
          fun _ _ _ _ => id
      · exact spec.blobConfig_ok _ _ (by rw [answer])
    next error remote answer =>
      rw [answer] at same
      cases taken
      exact sound.alike ((Unaffected.refl _).called fun path _ => congrFun same path)
  · cases taken

omit spec in
/-- The remote is not ahead where the record of the entry may still be asked for. -/
theorem Sound.level (distinct : Set.InjOn relationship.remotePathOf paths) (inside : entry ∈ paths)
    (isOpen : s.Open entry) : ¬ Ahead relationship s (relationship.remotePathOf entry) := by
  rintro (⟨holder, stage, current, landed, same⟩ | ⟨-, record, waits, titled⟩)
  · obtain ⟨-, among, visited, -⟩ := sound.staged holder stage current
    obtain rfl := distinct among inside same
    rcases isOpen with unseen | ⟨content, statted⟩
    · exact unseen visited
    · rw [current, Option.some.injEq] at statted
      subst statted
      cases landed
  · exact sound.unqueued distinct inside (Or.inl isOpen) record waits titled

omit spec in
theorem stat_sound (distinct : Set.InjOn relationship.remotePathOf paths) (inside : entry ∈ paths)
    (taken : s.stat env entry = some next) : Sound env view relationship paths hashPrefix next := by
  unfold stat at taken
  split at taken
  next ready =>
    dsimp only at taken
    split at taken
    next content time push answer =>
      obtain ⟨alike, found⟩ := Unaffected.reached view symlinkMetadata_unaffected answer
      cases taken
      have shown := shownAt_of_metadata (found _ rfl _ rfl)
      have isOpen : s.Open entry := Or.inl ready.2
      refine (sound.entered inside ready.1 ready.2 fun record known unlinked => ?_).alike alike
      have good := sound.stored _ (sound.level distinct inside isOpen) record known
      refine ⟨(good.2 unlinked entry inside rfl).1, fun bytes now => ?_⟩
      have both := shown.symm.trans now
      simp only [Option.some.injEq, Prod.mk.injEq] at both
      exact both.1.symm
    next target modified push answer =>
      cases taken
      have pointed : StageSound env view relationship s entry (.pointed modified) := trivial
      exact (sound.entered inside ready.1 ready.2 pointed).alike
        (Unaffected.reached view symlinkMetadata_unaffected answer).1
    next result push _ _ answer =>
      cases taken
      exact (sound.visited entry).alike (Unaffected.reached view symlinkMetadata_unaffected answer).1
  · cases taken

omit spec in
theorem date_sound (distinct : Set.InjOn relationship.remotePathOf paths)
    (taken : s.date env relationship entry = some next) : Sound env view relationship paths hashPrefix next := by
  unfold date at taken
  split at taken
  next content current =>
    obtain ⟨phase, inside, visited, -⟩ := sound.staged entry _ current
    have isOpen : s.Open entry := Or.inr ⟨content, current⟩
    have dropped := sound.setStage current none (fun _ equal => by cases equal) (fun _ equal => by cases equal)
      fun landed => by cases landed
    split at taken
    next mtime push answer =>
      obtain ⟨alike, read⟩ := Unaffected.reached view fileMtime_unaffected answer
      obtain ⟨bytes, shown⟩ := shownAt_of_modified (read _ rfl mtime rfl)
      dsimp only at taken
      split at taken
      · cases taken
        exact dropped.alike (alike.counted rfl rfl rfl)
      · cases taken
        refine (sound.setStage current _ (fun _ equal => by cases equal) (fun after equal => ?_)
          fun landed => by cases landed).alike alike
        cases equal
        refine ⟨rfl, rfl, ⟨Or.inr ⟨_, List.mem_cons_self, bytes, shown⟩, fun _ _ => trivial⟩, fun record known => ?_⟩
        rw [sound.mirror phase entry inside isOpen] at known
        exact (sound.stored _ (sound.level distinct inside isOpen) record known).1
    next result push _ answer =>
      cases taken
      exact dropped.alike (Unaffected.reached view fileMtime_unaffected answer).1
  · cases taken

omit spec in
theorem hash_sound (taken : s.hash env entry = some next) : Sound env view relationship paths hashPrefix next := by
  unfold hash at taken
  split at taken
  next request current =>
    obtain ⟨-, -, -, asked⟩ := sound.staged entry _ current
    have dropped := sound.setStage current none (fun _ equal => by cases equal) (fun _ equal => by cases equal)
      fun landed => by cases landed
    split at taken
    next content push answer =>
      obtain ⟨alike, found⟩ := Unaffected.reached view readFile_unaffected answer
      cases taken
      have read : s.disk.read entry = .ok content := asked.entryPath ▸ found _ rfl content rfl
      refine (sound.setStage current _ (fun _ equal => by cases equal) (fun after equal => ?_)
        fun landed => by cases landed).alike alike
      cases equal
      exact ⟨asked, asked.entryPath, asked.remotePath, rfl, rfl, asked.dated.1,
        fun bytes shown => shownAt_of_read read shown⟩
    next result push _ answer =>
      cases taken
      exact dropped.alike (Unaffected.reached view readFile_unaffected answer).1
  · cases taken

omit spec in
/-- A file with the hash of its record waits for a fresh record, or for nothing. -/
theorem decide_sound (distinct : Set.InjOn relationship.remotePathOf paths) (taken : s.decide env entry = some next) :
    Sound env view relationship paths hashPrefix next := by
  unfold decide at taken
  split at taken
  next bytes request file current =>
    obtain ⟨-, inside, -, asked, carried⟩ := sound.staged entry _ current
    have waits : Sound env view relationship paths hashPrefix
      (s.setStage entry (some (.waiting bytes file none false))) := by
      refine sound.setStage current _ (fun _ equal => by cases equal) (fun after equal => ?_)
        fun landed => by cases landed
      cases equal
      exact ⟨carried, fun _ impossible => (by cases impossible), fun impossible => by cases impossible⟩
    dsimp only at taken
    split at taken
    · cases taken
      exact waits
    next record known =>
      split at taken
      next same =>
        split at taken
        next =>
          have held := asked.held record known
          rw [same] at held
          obtain ⟨updated, push, resumed, alike, time, rfl⟩ := resume_eq (makeFileMeta_unaffected)
            (Unaffected.refl s.push : Unaffected view [] s.push s.push) fun updated s =>
              (s.withPush (s.push.queueMeta updated).skipped).setStage entry none
          rw [resumed] at taken
          cases taken
          have good := carried.good distinct inside held time
          rw [← carried.remotePath] at good
          show Sound env view relationship paths hashPrefix
            ((s.withPush (push.queueMeta (syncedMeta file time)).skipped).setStage entry none)
          exact sound.queued distinct current carried.remotePath (fun landed => by cases landed) good alike.disk
            alike.files alike.view_eq (congrArg (·.set (syncedMeta file time)) alike.mirror)
            (congrArg (· ++ [syncedMeta file time]) alike.pending)
        next =>
          cases taken
          exact (sound.setStage current none (fun _ equal => by cases equal) (fun _ equal => by cases equal)
            fun landed => by cases landed).alike ((Unaffected.refl _).counted rfl rfl rfl)
      next =>
        cases taken
        exact waits
  · cases taken

omit spec in
theorem plan_sound (taken : s.plan env entry = some next) : Sound env view relationship paths hashPrefix next := by
  unfold plan at taken
  split at taken
  next bytes file chunks landed current =>
    obtain ⟨-, -, -, carried, -, known⟩ := sound.staged entry _ current
    have waits : ∀ hashes : Option (List Text),
        (∀ known, hashes = some known → Planned env s.config file (commitFileOf file known)) →
        Sound env view relationship paths hashPrefix
          (s.setStage entry (some (.waiting bytes file hashes landed))) := by
      intro hashes planned
      refine sound.setStage current _ (fun _ equal => by cases equal) (fun after equal => ?_) fun arrived => ?_
      · cases equal
        exact ⟨carried, planned, known⟩
      · exact Or.inr ⟨_, rfl, arrived⟩
    split at taken
    next planned push answer =>
      obtain ⟨alike, known⟩ := Unaffected.reached view planFileChunks_unaffected answer
      cases taken
      refine (waits _ fun hashes equal => ?_).alike alike
      cases equal
      exact known _ rfl planned rfl
    next result push _ answer =>
      cases taken
      exact (waits none fun _ impossible => by cases impossible).alike
        (Unaffected.reached view planFileChunks_unaffected answer).1
  · cases taken

theorem sendChunk_sound {chunk : PendingChunkRef} (taken : s.sendChunk env chunk = some next) :
    Sound env view relationship paths hashPrefix next := by
  unfold sendChunk at taken
  split at taken
  · cases taken
    exact sound.alike ((uploadPendingChunk_unaffected spec).reached (Unaffected.refl _))
  · cases taken

omit spec in
theorem retry_sound (taken : s.retry entry = some next) : Sound env view relationship paths hashPrefix next := by
  unfold retry at taken
  split at taken
  next bytes file current =>
    obtain ⟨-, -, -, carried, -, known⟩ := sound.staged entry _ current
    cases taken
    refine sound.setStage current _ (fun _ equal => by cases equal) (fun after equal => ?_) fun _ => Or.inr
      ⟨_, rfl, rfl⟩
    cases equal
    exact ⟨carried, fun _ impossible => (by cases impossible), fun _ => known⟩
  · cases taken

omit spec in
theorem record_sound (distinct : Set.InjOn relationship.remotePathOf paths) (taken : s.record env entry = some next) :
    Sound env view relationship paths hashPrefix next := by
  unfold record at taken
  split at taken
  next bytes file current =>
    obtain ⟨-, inside, -, carried, held, known⟩ := sound.staged entry _ current
    have good := carried.good distinct inside held
    rw [← carried.remotePath] at good
    obtain ⟨record, push, resumed, alike, time, rfl⟩ := resume_eq makeFileMeta_unaffected
      (Unaffected.refl s.push : Unaffected view [] s.push s.push) fun record s =>
        (s.withPush (s.push.uploaded [file] [record])).setStage entry none
    rw [resumed] at taken
    cases taken
    show Sound env view relationship paths hashPrefix
      ((s.withPush (push.uploaded [file] [syncedMeta file time])).setStage entry none)
    exact sound.queued distinct current carried.remotePath (fun _ => known) (good time) alike.disk alike.files
      alike.view_eq (congrArg (·.setAll [syncedMeta file time]) alike.mirror)
      (congrArg (· ++ [syncedMeta file time]) alike.pending)
  · cases taken

omit spec in
theorem readLink_sound (taken : s.readLink env relationship entry = some next) :
    Sound env view relationship paths hashPrefix next := by
  unfold readLink at taken
  split at taken
  next modified current =>
    have dropped := sound.setStage current none (fun _ equal => by cases equal) (fun _ equal => by cases equal)
      fun landed => by cases landed
    dsimp only at taken
    split at taken
    next found push answer =>
      obtain ⟨alike, -⟩ := Unaffected.reached view readLink_unaffected answer
      split at taken
      · cases taken
        exact dropped.alike (alike.counted rfl rfl rfl)
      · have dated : Triple (Unaffected view [] s.push) (onWorld (metadataMtimeOrNow env modified))
            (fun _ t => Unaffected view [] s.push t ∧ True) (fun _ _ => False) := metadataMtimeOrNow_unaffected
        change some ((s.withPush push).resume
          (onWorld (metadataMtimeOrNow env modified) (s.withPush push).push) _) = _ at taken
        obtain ⟨modifiedAt, later, resumed, further, -⟩ := resume_eq (s := s.withPush push) dated alike
          fun modifiedAt s => s.setStage entry (some (.queued ⟨relationship.remotePathOf entry, toStringLossy found,
            symlinkIdentityHash env.digest (relationship.remotePathOf entry) (toStringLossy found), modifiedAt⟩))
        rw [resumed] at taken
        cases taken
        refine (sound.setStage current _ (fun _ equal => by cases equal) (fun after equal => ?_)
          fun landed => by cases landed).alike further
        cases equal
        exact ⟨rfl, rfl⟩
    next result push _ answer =>
      cases taken
      exact dropped.alike (Unaffected.reached view readLink_unaffected answer).1
  · cases taken

omit spec in
theorem recordLink_sound (distinct : Set.InjOn relationship.remotePathOf paths)
    (taken : s.recordLink env entry = some next) : Sound env view relationship paths hashPrefix next := by
  unfold recordLink at taken
  split at taken
  next link pushed current =>
    obtain ⟨-, -, -, pointed, ⟨stored, present, same⟩, acknowledged⟩ := sound.staged entry _ current
    obtain ⟨time, push, resumed, alike, -⟩ := resume_eq now_unaffected
      (Unaffected.refl s.push : Unaffected view [] s.push s.push) fun time s =>
        (s.withPush (s.push.queueLink (syncedSymlinkMeta link time) pushed)).setStage entry none
    rw [resumed] at taken
    cases taken
    have named : (syncedSymlinkMeta link time).path = relationship.remotePathOf entry := pointed.remotePath
    have good : Good env view relationship paths s (syncedSymlinkMeta link time).path
        (syncedSymlinkMeta link time) := by
      rw [named]
      exact ⟨⟨.symlink stored, present, same⟩, fun unlinked => absurd present (unlinked stored)⟩
    have same : (push.queueLink (syncedSymlinkMeta link time) pushed).world = push.world ∧
        (push.queueLink (syncedSymlinkMeta link time) pushed).metadataByPath =
          push.metadataByPath.set (syncedSymlinkMeta link time) ∧
        (push.queueLink (syncedSymlinkMeta link time) pushed).pendingMetadataUpdates =
          push.pendingMetadataUpdates ++ [syncedSymlinkMeta link time] := by
      cases pushed <;> exact ⟨rfl, rfl, rfl⟩
    obtain ⟨world, mirror, pending⟩ := same
    show Sound env view relationship paths hashPrefix
      ((s.withPush (push.queueLink (syncedSymlinkMeta link time) pushed)).setStage entry none)
    exact sound.queued distinct current named (fun _ => acknowledged) good
      (by rw [world, alike.disk]) (by rw [world, alike.files]) (by rw [world, alike.view_eq])
      (by rw [mirror, alike.mirror]) (by rw [pending, alike.pending])
  · cases taken

omit spec in
/-- A push may end when the records know nothing of the paths where the remote is ahead. -/
theorem stopped_sound (settled : Settled relationship s) :
    Sound env view relationship paths hashPrefix s.stopped := by
  refine sound_of_stored (fun _ => rfl) rfl (fun path record known => ?_) (fun impossible => ?_) fun impossible => ?_
  · have level : ¬ Ahead relationship s path := by
      intro ahead
      have missing := settled path ahead
      rw [show s.push.world.store.files.find path = some record from known] at missing
      cases missing
    exact (sound.stored path level record known).step rfl fun _ _ _ _ => id
  · cases impossible
  · cases impossible

omit spec in
theorem fail_sound {error : ClientError} (fits : Careful env view relationship s (.fail entry error))
    (taken : s.fail env entry error = some next) : Sound env view relationship paths hashPrefix next := by
  obtain ⟨allowed, settled, last⟩ := fits
  unfold fail at taken
  split at taken
  next bytes file chunks landed current =>
    obtain ⟨-, -, -, carried, -, known⟩ := sound.staged entry _ current
    rw [← carried.remotePath] at allowed
    have failing : Triple (Unaffected view [] s.push) (recordPushFailure env file error) _ _ :=
      recordPushFailure_unaffected allowed
    have outcome := failing s.push (Unaffected.refl s.push)
    rcases answer : recordPushFailure env file error s.push with ⟨result, push⟩
    rw [answer] at outcome taken
    cases result with
    | ok _ =>
        cases taken
        refine (sound.setStage current none (fun _ equal => by cases equal) (fun _ equal => by cases equal)
          fun arrived => ?_).alike outcome
        exact Or.inl (settled (known arrived))
    | error _ =>
        cases taken
        refine stopped_sound (sound.alike outcome.1) fun path ahead => ?_
        show push.world.store.files.find path = none
        rw [outcome.1.files]
        refine last outcome.2 path (ahead.imp_right (And.imp_right ?_))
        show (∃ record ∈ push.pendingMetadataUpdates, record.path = path) → _
        rw [outcome.1.pending]
        exact id
  · cases taken

omit spec in
theorem turn_sound (taken : s.turn = some next) : Sound env view relationship paths hashPrefix next := by
  unfold turn at taken
  split at taken
  next ready =>
    obtain ⟨-, pending, done⟩ := ready
    have unstaged : ∀ entry, s.stages entry = none := by
      intro entry
      cases current : s.stages entry with
      | none => rfl
      | some stage =>
          have visited := (sound.staged entry stage current).2.2.1
          have none := List.all_eq_true.mp done entry visited
          rw [current] at none
          cases none
    cases taken
    refine sound_of_stored unstaged pending (fun path record known => ?_) (fun impossible => ?_)
      fun impossible => ?_
    · exact (sound.stored path (not_ahead unstaged pending _) record known).step rfl fun _ _ _ _ => id
    · cases impossible
    · cases impossible
  · cases taken

section Accepting

variable (accepts : StoreAccepts env)
include accepts

omit spec in
theorem flush_sound (distinct : Set.InjOn relationship.remotePathOf paths) (taken : s.flush env = some next) :
    Sound env view relationship paths hashPrefix next := by
  unfold flush at taken
  split at taken
  · obtain ⟨_, push, resumed, disk, there, mirror, pending, files⟩ := resume_eq
      (flushPendingMetadataUpdates_writes view accepts) rfl fun _ s => s
    rw [resumed] at taken
    cases taken
    exact sound.flushed distinct disk there mirror pending files
  · cases taken

variable (refuses : EngineRefuses env.engine view)

theorem adopt_sound (distinct : Set.InjOn relationship.remotePathOf paths) (taken : s.adopt env entry = some next) :
    Sound env view relationship paths hashPrefix next := by
  unfold adopt at taken
  split at taken
  next bytes request file current =>
    obtain ⟨-, -, -, -, carried⟩ := sound.staged entry _ current
    split at taken
    · obtain ⟨done, push, resumed, outcome⟩ := resume_eq
        (x := tryTarget env s.migration request.migrationOldRemotePath file) (tryTarget_refiles accepts spec)
        (Unaffected.refl s.push) fun done s => if done then s.setStage entry none else s
      rw [resumed] at taken
      cases taken
      rcases outcome with alike | ⟨rfl, old, -, refiled, there⟩
      · cases done
        · exact sound.alike alike
        · exact (sound.setStage current none (fun _ equal => by cases equal) (fun _ equal => by cases equal)
            fun landed => by cases landed).alike alike
      · exact sound.refiled distinct current rfl carried refiled (Or.inl (congrFun there old))
    · cases taken
  · cases taken

include refuses

theorem move_sound (distinct : Set.InjOn relationship.remotePathOf paths) {legacy : Bool}
    (fits : Careful env view relationship s (.move entry legacy))
    (taken : s.move env relationship entry legacy = some next) :
    Sound env view relationship paths hashPrefix next := by
  unfold move at taken
  split at taken
  next bytes request file current =>
    obtain ⟨-, -, -, -, carried⟩ := sound.staged entry _ current
    have goesOn : ∀ old, (∀ path source, old = some path → s.push.metadataByPath.find path = some source →
          source.contentHash = file.contentHash → s.Free relationship entry path) →
        ∀ {x : PushProgram ρ Bool}, Triple (Unaffected view [] s.push) x (fun done t => Unaffected view [] s.push t ∨
          done = true ∧ ∃ path source, old = some path ∧ s.push.metadataByPath.find path = some source ∧
            source.contentHash = file.contentHash ∧ Refiled env view path file s.push t) (fun _ _ => False) →
        Sound env view relationship paths hashPrefix
          (s.resume (x s.push) fun done s => if done then s.setStage entry none else s) := by
      intro old free x triple
      obtain ⟨done, push, resumed, outcome⟩ := resume_eq triple (Unaffected.refl s.push) fun done s =>
        if done then s.setStage entry none else s
      rw [resumed]
      rcases outcome with alike | ⟨rfl, path, source, named, listed, same, refiled⟩
      · cases done
        · exact sound.alike alike
        · exact (sound.setStage current none (fun _ equal => by cases equal) (fun _ equal => by cases equal)
            fun landed => by cases landed).alike alike
      · exact sound.refiled distinct current rfl carried refiled (Or.inr (free path source named listed same))
    have calm : ∀ path error, Triple (Unaffected view [] s.push)
        (do
          Proc.modify (PushState.failed (failedToMigrate path file.remotePath error))
          pure true : PushProgram ρ Bool)
        (fun _ => Unaffected view [] s.push) (fun _ _ => False) := fun _ _ =>
      Triple.seq (Triple.modify fun _ alike => alike.counted rfl rfl rfl) (Triple.ret fun _ alike => alike)
    have renamed : Triple (Unaffected view [] s.push)
        (tryMove env relationship.remotePath request.legacySeparatorRemotePath file fun _ _ => pure false)
        (fun done t => Unaffected view [] s.push t ∨ done = true ∧ ∃ path source,
          request.legacySeparatorRemotePath = some path ∧ s.push.metadataByPath.find path = some source ∧
            source.contentHash = file.contentHash ∧ Refiled env view path file s.push t) (fun _ _ => False) :=
      tryMove_refiles accepts spec refuses fun _ _ => Triple.ret fun _ alike => alike
    have migrated : Triple (Unaffected view [] s.push)
        (tryMove env (migrationRoot ⟨relationship, [], s.mode, s.config, s.migration⟩) request.migrationOldRemotePath
          file fun path error => do
            Proc.modify (PushState.failed (failedToMigrate path file.remotePath error))
            pure true)
        (fun done t => Unaffected view [] s.push t ∨ done = true ∧ ∃ path source,
          request.migrationOldRemotePath = some path ∧ s.push.metadataByPath.find path = some source ∧
            source.contentHash = file.contentHash ∧ Refiled env view path file s.push t) (fun _ _ => False) :=
      tryMove_refiles accepts spec refuses calm
    split at taken
    · cases legacy with
      | true =>
          have moved := goesOn _ (fits bytes request file current) renamed
          exact Option.some.inj taken ▸ moved
      | false =>
          have moved := goesOn _ (fits bytes request file current) migrated
          exact Option.some.inj taken ▸ moved
    · cases taken
  · cases taken

theorem remove_sound {path : Text} (taken : s.remove env path = some next) :
    Sound env view relationship paths hashPrefix next := by
  unfold remove at taken
  split at taken
  next ready =>
    obtain ⟨unstaged, pending⟩ := sound.quiet (by rw [ready]; decide)
    obtain ⟨_, push, resumed, outcome⟩ := resume_eq (x := deleteRemote env path)
      (deleteRemote_removes accepts spec refuses) (Unaffected.refl s.push) fun _ s => s
    rw [resumed] at taken
    cases taken
    rcases outcome with alike | ⟨disk, waiting, files, there⟩
    · exact sound.alike alike
    refine sound_of_stored unstaged (waiting.trans pending) (fun other record known => ?_) (fun running => ?_)
      fun running => ?_
    · change push.world.store.files.find other = some record at known
      rw [files, Records.find_remove] at known
      split at known
      · cases known
      next apart =>
        refine (sound.stored other (not_ahead unstaged pending _) record known).step (there other apart) ?_
        show ∀ entry ∈ paths, ∀ time good, _ → Dated (⟨push.world.disk, s.past, []⟩ : Seen) entry time good
        rw [disk]
        exact fun _ _ _ _ => id
    · rw [show (s.withPush push).phase = s.phase from rfl, ready] at running
      cases running
    · rw [show (s.withPush push).phase = s.phase from rfl, ready] at running
      cases running
  · cases taken

omit accepts in
theorem put_sound (distinct : Set.InjOn relationship.remotePathOf paths)
    (fits : Careful env view relationship s (.put entry))
    (taken : s.put env relationship entry = some next) : Sound env view relationship paths hashPrefix next := by
  unfold put at taken
  split at taken
  next bytes file chunks landed current =>
    obtain ⟨-, -, -, carried, -⟩ := sound.staged entry _ current
    have putting : Triple (Unaffected view [] s.push) (onWorld (pushFileDirectly env file)) _ _ :=
      pushFileDirectly_puts spec refuses
    have outcome := putting s.push (Unaffected.refl s.push)
    split at taken
    next push answer =>
      rw [answer] at outcome
      obtain ⟨alike, body, read, there⟩ := outcome
      rw [carried.localPath] at read
      rw [carried.remotePath] at alike there
      have same := fits bytes file chunks landed body current read
      cases taken
      exact sound.landed distinct true current alike ⟨.file body, there, same ▸ carried.contentHash.symm⟩
    next error push answer =>
      rw [answer] at outcome
      cases taken
      exact sound.alike outcome
  · cases taken

omit accepts in
theorem commit_sound (injective : Function.Injective env.digest)
    (distinct : Set.InjOn relationship.remotePathOf paths)
    {entries : List PathBuf} (taken : s.commit env relationship entries = some next) :
    Sound env view relationship paths hashPrefix next := by
  unfold commit at taken
  split at taken
  · cases taken
  next files mapped =>
    -- What is committed is what was planned for the entries.
    have planned : ∀ entry bytes file chunks landed,
        s.stages entry = some (.waiting bytes file (some chunks) landed) →
        entry ∈ paths ∧ (commitFileOf file chunks).path = relationship.remotePathOf entry ∧
          Planned env s.config file (commitFileOf file chunks) ∧ s.config.chunkHashPrefix = hashPrefix := by
      intro entry bytes file chunks landed current
      obtain ⟨phase, inside, -, carried, known, -⟩ := sound.staged entry _ current
      have fits := known chunks rfl
      exact ⟨inside, fits.1.trans carried.remotePath, fits, sound.config phase⟩
    have listed : ∀ commit ∈ files, ∃ entry ∈ entries, ∃ bytes file chunks landed,
        s.stages entry = some (.waiting bytes file (some chunks) landed) ∧ commitFileOf file chunks = commit := by
      intro commit inside
      obtain ⟨entry, among, named⟩ := exists_of_mapM mapped inside
      exact ⟨entry, among, commit_of_stage named⟩
    have committed : ∀ entry ∈ entries, ∃ bytes file chunks landed,
        s.stages entry = some (.waiting bytes file (some chunks) landed) ∧ commitFileOf file chunks ∈ files := by
      intro entry among
      obtain ⟨commit, inside, named⟩ := mem_of_mapM mapped among
      obtain ⟨bytes, file, chunks, landed, current, rfl⟩ := commit_of_stage named
      exact ⟨bytes, file, chunks, landed, current, inside⟩
    have single : ∀ commit ∈ files, ∀ other ∈ files, other.path = commit.path → other = commit := by
      intro commit inside other among same
      obtain ⟨left, -, _, file, chunks, _, leftStage, rfl⟩ := listed commit inside
      obtain ⟨right, -, _, _, _, _, rightStage, rfl⟩ := listed other among
      obtain ⟨leftIn, leftPath, -⟩ := planned left _ _ _ _ leftStage
      obtain ⟨rightIn, rightPath, -⟩ := planned right _ _ _ _ rightStage
      obtain rfl := distinct rightIn leftIn ((rightPath.symm.trans same).trans leftPath)
      rw [leftStage] at rightStage
      cases rightStage
      rfl
    have called : onWorld (callRemote (env.engine.blobCommit files)) s.push =
        ((env.engine.blobCommit files s.push.world.remote).1, s.push.withWorld
          { s.push.world with remote := (env.engine.blobCommit files s.push.world.remote).2 }) := rfl
    split at taken
    next push answer =>
      obtain ⟨acknowledged, rfl⟩ := Prod.mk.inj (called.symm.trans answer)
      cases taken
      refine sound.accepted distinct entries ((Unaffected.refl _).called fun path outside => ?_) fun entry among => ?_
      · refine spec.blobCommit_other _ _ path fun commit inside same => outside ?_
        obtain ⟨entry, among, _, _, _, _, current, rfl⟩ := listed commit inside
        exact List.mem_map.mpr ⟨entry, among, (planned entry _ _ _ _ current).2.1.symm.trans same⟩
      · obtain ⟨bytes, file, chunks, landed, current, inside⟩ := committed entry among
        obtain ⟨-, named, ⟨-, pieces, hashes, digest, -⟩, config⟩ := planned entry _ _ _ _ current
        obtain ⟨stored, same, present⟩ := spec.blobCommit_ok files _ _ acknowledged inside (single _ inside)
        refine ⟨_, current, .file stored.flatten, named ▸ present, ?_⟩
        rw [config] at hashes
        have equal := List.map_injective_iff.mpr (chunkHash_injective injective hashPrefix) (same.trans hashes)
        rw [equal]
        exact digest
    next error push answer =>
      obtain ⟨refused, rfl⟩ := Prod.mk.inj (called.symm.trans answer)
      cases taken
      exact sound.alike ((Unaffected.refl _).called fun path _ => congrFun (refuses.blobCommit_error _ _ _ refused) path)

omit accepts in
theorem sendLink_sound (distinct : Set.InjOn relationship.remotePathOf paths)
    (taken : s.sendLink env relationship entry = some next) : Sound env view relationship paths hashPrefix next := by
  unfold sendLink at taken
  split at taken
  next link current =>
    obtain ⟨-, -, -, pointed⟩ := sound.staged entry _ current
    have pushing : Triple (Unaffected view [] s.push) (onWorld (pushOneSymlink env s.mode link)) _ _ :=
      pushOneSymlink_links spec refuses pointed.contentHash
    have outcome := pushing s.push (Unaffected.refl s.push)
    split at taken
    next pushed push answer =>
      rw [answer] at outcome
      obtain ⟨alike, there⟩ := outcome
      rw [pointed.remotePath] at alike there
      cases taken
      exact sound.landed distinct pushed current alike there
    next error push answer =>
      rw [answer] at outcome
      cases taken
      exact (sound.setStage current none (fun _ equal => by cases equal) (fun _ equal => by cases equal)
        fun landed => by cases landed).alike outcome
  · cases taken

omit spec refuses in
theorem forget_sound {path : Text} (taken : s.forget env path = some next) :
    Sound env view relationship paths hashPrefix next := by
  unfold forget at taken
  split at taken
  next ready =>
    obtain ⟨unstaged, pending⟩ := sound.quiet (by rw [ready]; decide)
    obtain ⟨_, push, resumed, disk, there, waiting, files⟩ := resume_eq
      (dropStaleRecord_drops view accepts path) rfl fun _ s => s
    rw [resumed] at taken
    cases taken
    refine sound_of_stored unstaged (waiting.trans pending) (fun other record known => ?_) (fun running => ?_)
      fun running => ?_
    · change push.world.store.files.find other = some record at known
      rw [files, Records.find_remove] at known
      split at known
      · cases known
      refine (sound.stored other (not_ahead unstaged pending _) record known).step (congrFun there other) ?_
      show ∀ entry ∈ paths, ∀ time good, _ → Dated (⟨push.world.disk, s.past, []⟩ : Seen) entry time good
      rw [disk]
      exact fun _ _ _ _ => id
    · rw [show (s.withPush push).phase = s.phase from rfl, ready] at running
      cases running
    · rw [show (s.withPush push).phase = s.phase from rfl, ready] at running
      cases running
  · cases taken

omit spec refuses in
theorem finish_sound (taken : s.finish env = some next) : Sound env view relationship paths hashPrefix next := by
  unfold finish at taken
  split at taken
  · obtain ⟨_, push, resumed, alike⟩ := resume_eq (clearPathMigration_unaffected accepts)
      (Unaffected.refl s.push : Unaffected view [] s.push s.push) fun _ s => s
    rw [resumed] at taken
    cases taken
    exact sound.alike alike
  · cases taken

theorem Sound.step (injective : Function.Injective env.digest) (distinct : Set.InjOn relationship.remotePathOf paths)
    {action : RaceAction} (premised : Premised paths s action) (careful : Careful env view relationship s action)
    (taken : s.step env relationship action = some next) : Sound env view relationship paths hashPrefix next := by
  cases action with
  | write disk =>
      cases taken
      exact sound.written premised
  | begin mode => exact begin_sound spec sound taken
  | stat entry => exact stat_sound sound distinct premised taken
  | date entry => exact date_sound sound distinct taken
  | hash entry => exact hash_sound sound taken
  | decide entry => exact decide_sound sound distinct taken
  | move entry legacy => exact move_sound spec sound accepts refuses distinct careful taken
  | adopt entry => exact adopt_sound spec sound accepts distinct taken
  | plan entry => exact plan_sound sound taken
  | sendChunk chunk => exact sendChunk_sound spec sound taken
  | commit entries => exact commit_sound spec sound refuses injective distinct taken
  | put entry => exact put_sound spec sound refuses distinct careful taken
  | retry entry => exact retry_sound sound taken
  | fail entry error => exact fail_sound sound careful taken
  | record entry => exact record_sound sound distinct taken
  | readLink entry => exact readLink_sound sound taken
  | sendLink entry => exact sendLink_sound spec sound refuses distinct taken
  | recordLink entry => exact recordLink_sound sound distinct taken
  | flush => exact flush_sound sound accepts distinct taken
  | turn => exact turn_sound sound taken
  | remove path => exact remove_sound spec sound accepts refuses taken
  | forget path => exact forget_sound sound accepts taken
  | finish => exact finish_sound sound accepts taken
  | stop =>
      cases taken
      refine stopped_sound sound ?_
      by_cases running : s.phase = .files
      · exact careful running
      · exact fun path ahead => absurd ahead (sound.level_of_quiet running path)

end Accepting

end Steps

section Skips

variable (env : Env ρ) (view : ρ → Text → Option RemoteEntry) (relationship : SyncRelationship) (paths : Set PathBuf)

/-- No push is under way, and every record is true. -/
structure Truthful (s : PushRace ρ) : Prop where
  phase : s.phase = .idle
  stages : ∀ entry, s.stages entry = none
  pending : s.push.pendingMetadataUpdates = []
  stored : ∀ path record, s.push.world.store.files.find path = some record →
    Good env view relationship paths s path record

end Skips

theorem Truthful.sound (start : Truthful env view relationship paths s) :
    Sound env view relationship paths hashPrefix s :=
  sound_of_stored start.stages start.pending start.stored
    (fun running => by rw [start.phase] at running; cases running)
    fun running => by rw [start.phase] at running; cases running

theorem Unlinked.file (injective : Function.Injective env.digest) {path : Text} (unlinked : Unlinked view s path)
    {content : Bytes} (held : Holds env.digest (view s.push.world.remote) path (env.digest content)) :
    view s.push.world.remote path = some (.file content) := by
  obtain ⟨found, present, same⟩ := held
  cases found with
  | file other => rw [present, injective same]
  | symlink target => exact absurd present (unlinked target)

theorem Sound.skipsTruly (sound : Sound env view relationship paths hashPrefix s)
    (injective : Function.Injective env.digest) (distinct : Set.InjOn relationship.remotePathOf paths)
    {action : RaceAction} (careful : Careful env view relationship s action) :
    SkipsTruly env view relationship s action := by
  cases action with
  | date entry =>
      intro content skips
      have unlinked := careful content skips
      obtain ⟨current, mtime, dated, same⟩ := skips
      obtain ⟨phase, inside, visited, known⟩ := sound.staged entry _ current
      have isOpen : s.Open entry := Or.inr ⟨content, current⟩
      rw [sound.mirror phase entry inside isOpen] at same
      obtain ⟨-, record, found, -, size, time⟩ := canLiteFastSkip_iff.mp same
      rcases answer : onWorld (fileMtime env entry) s.push with ⟨result, push⟩
      rw [answer] at dated
      subst dated
      obtain ⟨-, read⟩ := Unaffected.reached view fileMtime_unaffected answer
      obtain ⟨bytes, shown⟩ := shownAt_of_modified (read _ rfl mtime rfl)
      rw [← time] at shown
      obtain rfl : bytes = content := (known record found unlinked).2 bytes shown
      obtain ⟨held, own⟩ := sound.stored _ (sound.level distinct inside isOpen) record found
      rw [← (own unlinked entry inside rfl).2 bytes shown size.symm] at held
      exact unlinked.file injective held
  | decide entry =>
      intro bytes skips
      have unlinked := careful bytes skips
      obtain ⟨request, file, record, current, known, same⟩ := skips
      obtain ⟨-, -, -, asked, carried⟩ := sound.staged entry _ current
      have held := asked.held record known
      rw [same, carried.contentHash] at held
      exact unlinked.file injective held
  | _ => exact trivial

def isLink : Option RemoteEntry → Bool
  | some (.symlink _) => true
  | _ => false

/-- A check of `Premised` for a list of files. -/
def premisedBy (entries : List PathBuf) (s : PushRace Shelf) : RaceAction → Bool
  | .write disk => entries.all fun entry => s.seen.freshAt entry disk
  | .stat entry => entries.any fun other => other = entry
  | .fail _ error => !isEngineForbidden error
  | _ => true

/-- A check of `Careful` for runs in which nothing is moved, put or given up. -/
def carefulBy (relationship : SyncRelationship) (s : PushRace Shelf) : RaceAction → Bool
  | .date entry => !isLink (s.push.world.remote.entries (relationship.remotePathOf entry))
  | .decide entry => !isLink (s.push.world.remote.entries (relationship.remotePathOf entry))
  | .stop => s.phase ≠ .files
  | .move _ _ => false
  | .put _ => false
  | .fail _ _ => false
  | _ => true

theorem unlinked_of_not_isLink {s : PushRace Shelf} {path : Text}
    (file : (!isLink (s.push.world.remote.entries path)) = true) : Unlinked Shelf.entries s path := by
  intro target linked
  rw [show s.push.world.remote.entries path = some (.symlink target) from linked] at file
  cases file

theorem premised_of_premisedBy {entries : List PathBuf} {s : PushRace Shelf} {action : RaceAction}
    (checked : premisedBy entries s action = true) : Premised {entry | entry ∈ entries} s action := by
  cases action with
  | write disk =>
      intro entry inside
      exact Seen.fresh_of_freshAt (List.all_eq_true.mp checked entry inside) entry rfl
  | stat entry =>
      obtain ⟨other, inside, same⟩ := List.any_eq_true.mp checked
      obtain rfl := of_decide_eq_true same
      exact inside
  | fail entry error => exact (Bool.not_eq_true' _).mp checked
  | _ => exact trivial

theorem careful_of_carefulBy {env : Env Shelf} {s : PushRace Shelf} {action : RaceAction}
    (checked : carefulBy relationship s action = true) : Careful env Shelf.entries relationship s action := by
  cases action with
  | date entry => exact fun _ _ => unlinked_of_not_isLink checked
  | decide entry => exact fun _ _ => unlinked_of_not_isLink checked
  | stop => exact fun running => absurd running (of_decide_eq_true checked)
  | move entry legacy => cases checked
  | put entry => cases checked
  | fail entry error => cases checked
  | _ => exact trivial

def noteFile : PathBuf := ofText (osText (text "/home/a"))

def otherFile : PathBuf := ofText (osText (text "/home/b"))

def noteDisk (content : Bytes) (time : Int) : Tree := homeTree [("a", .file content time)]

def newNote : PushRace Shelf :=
  let world := startWorld (noteDisk [65] 10) [] (Shelf.holding [])
  ⟨PushState.start Records.empty world, [], .idle, .full, plainConfig, none, fun _ => none, [], []⟩

theorem newNote_truthful (env : Env Shelf) (paths : Set PathBuf) :
    Truthful env Shelf.entries (docsRelationship none) paths newNote where
  phase := rfl
  stages _ := rfl
  pending := rfl
  stored := by
    intro path record known
    cases known

/-- The file changes and changes back while it is pushed. -/
def changedBack : List RaceAction :=
  [.begin .full, .stat noteFile, .date noteFile, .hash noteFile, .decide noteFile, .write (noteDisk [66] 20),
    .write (noteDisk [65] 30), .plan noteFile, .sendChunk ⟨plainDigest [65], noteFile, 0, 1⟩, .commit [noteFile],
    .record noteFile, .flush, .turn, .stop]

def hashedAgain : List RaceAction := [.begin .lite, .stat noteFile, .date noteFile, .hash noteFile]

/-- The steps that pass both checks. -/
def checkedStep (s : PushRace Shelf) (action : RaceAction) : Option (PushRace Shelf) :=
  if premisedBy [noteFile] s action = true ∧ carefulBy (docsRelationship none) s action = true then
    s.step shelfEnv (docsRelationship none) action
  else none

theorem run_of_checkedStep {first last : PushRace Shelf} {actions : List RaceAction}
    (ran : Runs.after checkedStep first actions = some last) :
    Runs.Run (fun s => s.step shelfEnv (docsRelationship none)) (fun s action =>
      Premised {entry | entry ∈ [noteFile]} s action ∧
        Careful shelfEnv Shelf.entries (docsRelationship none) s action)
      first actions last := by
  have run : Runs.Run (fun s => s.step shelfEnv (docsRelationship none)) (fun s action =>
      premisedBy [noteFile] s action = true ∧ carefulBy (docsRelationship none) s action = true) first actions last :=
    Runs.run_of_checked ran
  exact run.mono fun _ _ fits => ⟨premised_of_premisedBy fits.1, careful_of_carefulBy fits.2⟩

/-- The bytes of the note that have been hashed where its record has the same hash. -/
def unchanged? (s : PushRace Shelf) : Option Bytes := match s.stages noteFile with
  | some (.hashed bytes request file) => request.storedMeta.bind fun record =>
      if record.contentHash = file.contentHash then some bytes else none
  | _ => none

theorem hashSkips_of_unchanged {s : PushRace Shelf} {bytes : Bytes} (unchanged : s.unchanged? = some bytes) :
    HashSkips s noteFile bytes := by
  unfold unchanged? at unchanged
  split at unchanged
  next request file current =>
    obtain ⟨record, known, found⟩ := Option.bind_eq_some_iff.mp unchanged
    obtain ⟨same, equal⟩ := Option.ite_none_right_eq_some.mp found
    cases equal
    exact ⟨request, file, record, current, known, same⟩
  · cases unchanged

theorem changedBack_hashed : ((Runs.after checkedStep newNote (changedBack ++ hashedAgain)).bind fun last =>
    last.unchanged?.map fun bytes => (bytes, carefulBy (docsRelationship none) last (.decide noteFile))) =
      some ([65], true) := by
  decide

theorem changedBack_recorded : (Runs.after checkedStep newNote changedBack).map (fun last =>
    (last.phase, (last.push.world.store.files.find (text "/docs/a")).map fun record =>
      (record.contentHash, record.modifiedAt))) = some (.idle, some (plainDigest [65], 10)) := by
  decide

/-- This engine is busy whenever the other file is committed. -/
def busyEngine : Engine Shelf :=
  { Shelf.engine plainConfig with
    blobCommit := fun files s =>
      if files.any fun file => file.path = text "/docs/b" then (.error (.upstreamServer 503 (text "busy")), s)
      else (Shelf.engine plainConfig).blobCommit files s }

/-- The batch of both files fails, and the push ends after the note has been committed on its own. -/
def brokenOff : List RaceAction :=
  [.begin .full, .stat noteFile, .date noteFile, .hash noteFile, .stat otherFile, .date otherFile, .hash otherFile,
    .decide noteFile, .plan noteFile, .sendChunk ⟨plainDigest [66], noteFile, 0, 1⟩, .decide otherFile,
    .plan otherFile,
    .sendChunk ⟨plainDigest [67], otherFile, 0, 1⟩, .commit [noteFile, otherFile], .plan noteFile, .commit [noteFile],
    .plan otherFile, .commit [otherFile], .fail otherFile (.upstreamServer 503 (text "busy"))]

def bothDisk (content : Bytes) (time : Int) : Tree :=
  homeTree [("a", .file content time), ("b", .file [67] 20)]

def backAndForth : List RaceAction :=
  changedBack ++ .write (bothDisk [66] 40) :: brokenOff ++ .write (bothDisk [65] 50) :: hashedAgain

def busyStep (s : PushRace Shelf) (action : RaceAction) : Option (PushRace Shelf) :=
  if premisedBy [noteFile, otherFile] s action = true then s.step (calmEnv busyEngine) (docsRelationship none) action
  else none

/-- Without care a file that has changed back is left alone where the remote holds what it was in between. -/
theorem backAndForth_skips : ((Runs.after busyStep newNote backAndForth).map fun last =>
    (last.unchanged?, last.push.world.remote.entries (text "/docs/a"))) = some (some [65], some (.file [66])) := by
  decide

end PushRace

end AeordbSync

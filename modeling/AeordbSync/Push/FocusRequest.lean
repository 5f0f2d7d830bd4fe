import AeordbSync.Push.FocusPrepare

namespace AeordbSync
open Characters OsPath FileSystem Effect

variable {ρ : Type} {env : Env ρ} {view : ρ → Text → Option RemoteEntry} {t : Target ρ}
  {rest : List PushFilePrepRequest} {s : PushState ρ} {config : BlobConfig} {hashPrefix : Text}
  {request : PushFilePrepRequest} {file : PendingPushFile}

/-- The file was read for the request. -/
structure Candidate (env : Env ρ) (t : Target ρ) (request : PushFilePrepRequest)
    (file : PendingPushFile) : Prop where
  path : file.remotePath = request.remotePath
  content : ∃ content, t.disk.read request.entryPath = .ok content ∧ file.contentHash = env.digest content
  own : request.remotePath = t.path → t.wanted → t.Carries env file

/-- The entry has left its old path, where the content of the target was not. -/
theorem Stage.shaken {queue : List PendingPushFile} {pending : List FileSyncMeta} {x : Sight}
    (stage : Stage env t False queue pending rest x) (distinct : t.wanted → ¬ t.HeldBy env x.there)
    (shared : ¬ t.apart) (there : Option RemoteEntry) :
    Stage env t True queue pending rest { x with there := there } := by
  cases stage with
  | waiting wanted request inside own quiet held stored kept =>
      refine .waiting wanted request inside own quiet (fun m same equal => ?_) stored kept
      exact absurd (held m same equal) (distinct wanted)
  | queued wanted file inside own quiet => exact .queued wanted file inside own quiet
  | settled wanted clear held => exact absurd held (distinct wanted)
  | failed clear quiet failed => exact .failed clear quiet failed
  | untracked clear quiet unwanted => exact .leaving trivial clear quiet unwanted shared
  | lost clear quiet unwanted _ gone => exact .lost clear quiet unwanted shared gone
  | leaving now => exact now.elim

/-- A path that is being left counts as failed when the run has an error. -/
theorem Stage.blamed {loose : Prop} {queue : List PendingPushFile} {pending : List FileSyncMeta} {x y : Sight}
    (stage : Stage env t loose queue pending rest x) (there : y.there = x.there)
    (stored : y.stored = x.stored) (failed : y.failed) : Stage env t False queue pending rest y := by
  cases stage with
  | leaving _ clear quiet => exact .failed clear quiet failed
  | waiting wanted request inside own quiet held same kept =>
      exact .waiting wanted request inside own quiet (by rwa [there]) (by rwa [stored]) (by rwa [stored])
  | queued wanted file inside own quiet => exact .queued wanted file inside own quiet
  | settled wanted clear held recorded => exact .settled wanted clear (by rwa [there]) (by rwa [stored])
  | failed clear quiet => exact .failed clear quiet failed
  | untracked clear quiet => exact .failed clear quiet failed
  | lost clear quiet => exact .failed clear quiet failed

theorem Considerate.shares {oldPath : Text} (considerate : Considerate env t request)
    (other : request.remotePath ≠ t.path) (migrates : request.migrationOldRemotePath = some oldPath)
    (equal : oldPath = t.path) : ¬ t.apart :=
  fun apart => considerate.apart apart other (equal ▸ migrates)

/-- A rename, successful or not, seen from the state before it. -/
structure Renamed (env : Env ρ) (view : ρ → Text → Option RemoteEntry) (t : Target ρ)
    (request : PushFilePrepRequest) (rest : List PushFilePrepRequest) (oldPath : Text)
    (file : PendingPushFile) (before : PushState ρ) (remote : ρ) : Prop where
  tracked : Tracked env view t False [] [] (request :: rest) before
  source : ∃ content, view before.world.remote oldPath = some (.file content) ∧
    env.digest content = file.contentHash
  other : ∀ path, path ≠ oldPath → path ≠ file.remotePath → view remote path = view before.world.remote path

namespace Renamed

variable {oldPath : Text} {before : PushState ρ} {remote : ρ}

theorem landed (renamed : Renamed env view t request rest oldPath file before remote)
    (candidate : Candidate env t request file) (own : request.remotePath = t.path)
    (moved : view remote file.remotePath = view before.world.remote oldPath) :
    Landed env view t rest (before.withWorld { before.world with remote := remote }) := by
  have waits := renamed.tracked.waits own
  obtain ⟨content, present, same⟩ := renamed.source
  refine ⟨renamed.tracked.disk, renamed.tracked.log, waits.wanted, waits.clear, waits.quiet,
    .file content, ?_, ?_⟩
  · rw [← present, ← moved, candidate.path, own]
    rfl
  · exact same.trans (candidate.own own waits.wanted).contentHash

variable (renamed : Renamed env view t request rest oldPath file before remote)
  (candidate : Candidate env t request file) (considerate : Considerate env t request)
  (unrecorded : request.storedMeta = none) (migrates : request.migrationOldRemotePath = some oldPath)
  (other : request.remotePath ≠ t.path)
include renamed candidate considerate unrecorded migrates other

theorem distinct (equal : oldPath = t.path) (wanted : t.wanted) :
    ¬ t.HeldBy env (view before.world.remote t.path) := by
  rintro ⟨entry, present, identity⟩
  obtain ⟨content, source, same⟩ := renamed.source
  obtain ⟨read, found, hash⟩ := candidate.content
  rw [equal, present, Option.some.injEq] at source
  subst entry
  refine considerate.differ wanted other (equal ▸ migrates) unrecorded read found ?_
  rw [← hash, ← same]
  exact identity

theorem tracked_other :
    Tracked env view t (oldPath = t.path) [] [] rest
      (before.withWorld { before.world with remote := remote }) := by
  have dropped := renamed.tracked.drop other
  by_cases equal : oldPath = t.path
  · refine ⟨dropped.disk, dropped.log, dropped.carried, dropped.fresh, dropped.single, ?_⟩
    have shaken := dropped.stage.shaken
      (renamed.distinct candidate considerate unrecorded migrates other equal)
      (considerate.shares other migrates equal) (view remote t.path)
    exact shaken.map (fun _ => equal) id id (fun _ inside _ => inside) (fun _ inside _ => inside)
      (fun _ inside _ => inside) rfl rfl (fun _ _ => rfl) id
  · have apart : t.path ≠ file.remotePath := by
      rw [candidate.path]
      exact Ne.symm other
    have same : Tracked env view t False [] [] rest
        (before.withWorld { before.world with remote := remote }) :=
      dropped.same dropped.log rfl rfl rfl (renamed.other _ (Ne.symm equal) apart) rfl (fun _ => rfl) id
    refine ⟨same.disk, same.log, same.carried, same.fresh, same.single, ?_⟩
    exact same.stage.map False.elim id id (fun _ inside _ => inside) (fun _ inside _ => inside)
      (fun _ inside _ => inside) rfl rfl (fun _ _ => rfl) id

end Renamed

/-- A refused rename is an error of its entry. -/
theorem Renamed.refused {oldPath : Text} {before : PushState ρ} {remote : ρ}
    (renamed : Renamed env view t request rest oldPath file before remote)
    (candidate : Candidate env t request file) (considerate : Considerate env t request)
    (unrecorded : request.storedMeta = none) (migrates : request.migrationOldRemotePath = some oldPath)
    (message : Text) : Tracked env view t False [] [] rest
      ((before.withWorld { before.world with remote := remote }).failed message) := by
  by_cases own : request.remotePath = t.path
  · have waits := renamed.tracked.waits own
    exact renamed.tracked.advance rfl renamed.tracked.log rfl renamed.tracked.fresh
      (.failed waits.clear waits.quiet (PushState.errors_failed _ _))
  · have tracked := renamed.tracked_other candidate considerate unrecorded migrates own
    refine ⟨tracked.disk, tracked.log, tracked.carried, tracked.fresh, tracked.single, ?_⟩
    exact tracked.stage.blamed rfl rfl (PushState.errors_failed _ _)

theorem tryMove_none {queryRoot : Text} {refused : Text → ClientError → PushProgram ρ Bool} :
    Triple (Tracked env view t False [] [] (request :: rest)) (tryMove env queryRoot none file refused)
      (fun moved s => moved = false ∧ Tracked env view t False [] [] (request :: rest) s)
      (fun _ s => LogTrue env view t.path t.log s.world) :=
  Triple.bind (Q := fun _ => Tracked env view t False [] [] (request :: rest)) (Triple.get fun _ => id)
    fun _ => Triple.ret fun _ tracked => ⟨rfl, tracked⟩

section Requests

variable (spec : EngineSpec env.digest hashPrefix env.engine view)
include spec

/-- A true answer names the content that the remote holds. -/
theorem query_tracked {root path hash : Text} {E : ClientError → PushState ρ → Prop} :
    Triple (Tracked env view t False [] [] (request :: rest))
      (Proc.attempt (onWorld (callRemote (env.engine.remotePathHasContentHash root path hash))))
      (fun r s => Tracked env view t False [] [] (request :: rest) s ∧ (r = .ok true →
        ∃ content, view s.world.remote path = some (.file content) ∧ env.digest content = hash)) E := by
  refine Triple.attempt (onWorld_triple fun s tracked => callRemote_triple (fun w a equal answer => ?_)
    fun w e equal _ => ?_)
  · subst equal
    have same := spec.remotePathHasContentHash_view root path hash s.world.remote
    refine ⟨tracked.same tracked.log rfl rfl rfl (congrFun same _) rfl (fun _ => rfl) id, fun yes => ?_⟩
    rw [Except.ok.inj yes] at answer
    obtain ⟨content, present, equal⟩ := spec.remotePathHasContentHash_ok _ _ _ _ answer
    exact ⟨content, (congrFun same path).trans present, equal⟩
  · subst equal
    have same := spec.remotePathHasContentHash_view root path hash s.world.remote
    exact ⟨tracked.same tracked.log rfl rfl rfl (congrFun same _) rfl (fun _ => rfl) id, fun yes => by cases yes⟩

variable (candidate : Candidate env t request file) (considerate : Considerate env t request)
include candidate considerate

theorem tryMove_tracked (unrecorded : request.storedMeta = none) {queryRoot : Text} :
    Triple (Tracked env view t False [] [] (request :: rest))
      (tryMove env queryRoot request.migrationOldRemotePath file fun oldPath error => do
        Proc.modify (PushState.failed (failedToMigrate oldPath file.remotePath error))
        pure true)
      (fun moved s => (moved = true → Tracked env view t False [] [] rest s) ∧
        (moved = false → Tracked env view t False [] [] (request :: rest) s))
      (fun _ s => LogTrue env view t.path t.log s.world) := by
  have stays : ∀ (s : PushState ρ), Tracked env view t False [] [] (request :: rest) s →
      (false = true → Tracked env view t False [] [] rest s) ∧
        (false = false → Tracked env view t False [] [] (request :: rest) s) :=
    fun s tracked => ⟨(fun impossible => by cases impossible), fun _ => tracked⟩
  refine Triple.bind (Q := fun _ => Tracked env view t False [] [] (request :: rest)) (Triple.get fun _ => id)
    fun u => ?_
  cases migrates : request.migrationOldRemotePath with
  | none => exact Triple.ret stays
  | some oldPath =>
      dsimp only
      cases u.metadataByPath.find oldPath with
      | none => exact Triple.ret stays
      | some source =>
          refine Triple.ite (fun eligible => ?_) fun _ => Triple.ret stays
          refine Triple.bind (query_tracked spec) fun answer => ?_
          have gaveUp : Triple (fun s => Tracked env view t False [] [] (request :: rest) s)
              (pure false : PushProgram ρ Bool)
              (fun moved s => (moved = true → Tracked env view t False [] [] rest s) ∧
                (moved = false → Tracked env view t False [] [] (request :: rest) s))
              (fun _ s => LogTrue env view t.path t.log s.world) := Triple.ret stays
          rcases answer with _ | _ | _
          · exact gaveUp.weaken fun _ holds => holds.1
          · exact gaveUp.weaken fun _ holds => holds.1
          refine Triple.bind (Q := fun _ s => Tracked env view t False [] [] (request :: rest) s ∧
            ∃ content, view s.world.remote oldPath = some (.file content) ∧
              env.digest content = file.contentHash) (onWorld_triple fun s holds => note_triple fun w equal => ?_)
            fun _ => ?_
          · subst equal
            have log : LogTrue env view t.path t.log
                { s.world with log := .renamed oldPath file.remotePath :: s.world.log } :=
              holds.1.log.silent [.renamed oldPath file.remotePath] rfl fun _ _ inside => by
                cases List.mem_singleton.mp inside
            exact ⟨holds.1.same log rfl rfl rfl rfl rfl (fun _ => rfl) id, holds.2 rfl⟩
          refine Triple.bind (Q := fun r s => ∃ before remote,
            Renamed env view t request rest oldPath file before remote ∧
            s = before.withWorld { before.world with remote := remote } ∧
            (r = .ok () → view remote file.remotePath = view before.world.remote oldPath))
            (Triple.attempt (onWorld_triple fun s holds => callRemote_triple (fun w a equal answer => ?_)
              fun w e equal _ => ?_)) fun moved => ?_
          · subst equal
            refine ⟨s, _, ⟨holds.1, holds.2, fun path => spec.renameFile_other _ _ _ path⟩, rfl, fun _ => ?_⟩
            exact (spec.renameFile_ok _ _ _ eligible.1 answer).2
          · subst equal
            exact ⟨s, _, ⟨holds.1, holds.2, fun path => spec.renameFile_other _ _ _ path⟩, rfl,
              fun impossible => by cases impossible⟩
          cases moved with
          | error error =>
              refine Triple.bind (Q := fun _ => Tracked env view t False [] [] rest)
                (Triple.modify fun s holds => ?_) fun _ =>
                  Triple.ret fun s tracked => ⟨fun _ => tracked, fun impossible => by cases impossible⟩
              obtain ⟨before, remote, renamed, rfl, -⟩ := holds
              exact renamed.refused candidate considerate unrecorded migrates _
          | ok _ =>
              refine Triple.bind (Q := fun _ => Tracked env view t False [] [] rest) ?_ fun _ =>
                Triple.ret fun s tracked => ⟨fun _ => tracked, fun impossible => by cases impossible⟩
              by_cases own : request.remotePath = t.path
              · refine Triple.assume (C := t.wanted) (fun s holds => ?_) fun wanted => ?_
                · obtain ⟨before, remote, renamed, -, -⟩ := holds
                  exact (renamed.tracked.waits own).wanted
                refine (recordMove_landed (candidate.own own wanted) (candidate.path.trans own)).weaken
                  fun s holds => ?_
                obtain ⟨before, remote, renamed, rfl, landed⟩ := holds
                exact renamed.landed candidate own (landed rfl)
              · have other : file.remotePath ≠ t.path := by rwa [candidate.path]
                refine (recordMove_other other (considerate.shares own migrates) id).weaken
                  (P := Tracked env view t (oldPath = t.path) [] [] rest) fun s holds => ?_
                obtain ⟨before, remote, renamed, rfl, -⟩ := holds
                exact renamed.tracked_other candidate considerate unrecorded migrates own

theorem tryTarget_tracked {migration : Option SyncPathMigration} :
    Triple (Tracked env view t False [] [] (request :: rest))
      (tryTarget env migration request.migrationOldRemotePath file)
      (fun done s => (done = true → Tracked env view t False [] [] rest s) ∧
        (done = false → Tracked env view t False [] [] (request :: rest) s))
      (fun _ s => LogTrue env view t.path t.log s.world) := by
  have stays : Triple (Tracked env view t False [] [] (request :: rest)) (pure false : PushProgram ρ Bool)
      (fun done s => (done = true → Tracked env view t False [] [] rest s) ∧
        (done = false → Tracked env view t False [] [] (request :: rest) s))
      (fun _ s => LogTrue env view t.path t.log s.world) :=
    Triple.ret fun s tracked => ⟨(fun impossible => by cases impossible), fun _ => tracked⟩
  cases migration with
  | none => exact stays
  | some migration =>
      cases migrates : request.migrationOldRemotePath with
      | none => exact stays
      | some oldPath =>
          refine Triple.bind (query_tracked spec) fun answer => ?_
          rcases answer with _ | _ | _
          · exact stays.weaken fun _ holds => holds.1
          · exact stays.weaken fun _ holds => holds.1
          refine Triple.bind (Q := fun _ => Tracked env view t False [] [] rest) ?_ fun _ =>
            Triple.ret fun s tracked => ⟨fun _ => tracked, fun impossible => by cases impossible⟩
          by_cases own : request.remotePath = t.path
          · refine Triple.assume (C := t.wanted) (fun s holds => (holds.1.waits own).wanted) fun wanted => ?_
            have carries := candidate.own own wanted
            refine (recordTarget_landed carries (candidate.path.trans own)).weaken fun s holds => ?_
            have waits := holds.1.waits own
            obtain ⟨content, present, same⟩ := holds.2 rfl
            rw [candidate.path, own] at present
            exact ⟨holds.1.disk, holds.1.log, wanted, waits.clear, waits.quiet, .file content, present,
              same.trans carries.contentHash⟩
          · have other : file.remotePath ≠ t.path := by rwa [candidate.path]
            exact (recordTarget_other other (considerate.shares own migrates)).weaken
              fun s holds => holds.1.drop own

end Requests

end AeordbSync

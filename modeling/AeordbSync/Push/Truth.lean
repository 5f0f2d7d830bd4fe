import AeordbSync.Push.RunPaths
import AeordbSync.Reference

namespace AeordbSync
open Characters OsPath FileSystem Effect

variable {ρ : Type} {env : Env ρ} {view : ρ → Text → Option RemoteEntry} {hashPrefix : Text}
  {relationship : SyncRelationship} {others : List SyncRelationship} {mode : PushScanMode}
  {w : World ρ} {config : BlobConfig} {l : Location} {entries : List PathBuf} {s : PushState ρ}

theorem TailOutcome.log {path : Text} {log : List (Event ρ)} {ctx : PushContext} {base last : PushState ρ}
    (outcome : TailOutcome env view path log ctx base last) : LogTrue env view path log last.world := by
  cases outcome with
  | kept beside => exact beside.log
  | deleted later => exact later.log
  | forgotten later => exact later.log

/-- Every path has only true records, whatever belongs to it. -/
theorem PushReady.logTrue (ready : PushReady env relationship others mode w config l entries s)
    (spec : EngineSpec env.digest hashPrefix env.engine view) (injective : Function.Injective env.digest)
    (distinct : PathsApart relationship others w.disk l) (noMigration : w.store.migration = none)
    (truthful : RecordsTruthful env view w) (path : Text) :
    Triple (· = s) (pushScanned env (pushContext relationship others mode config w))
      (fun _ last => LogTrue env view path w.log last.world)
      (fun _ last => LogTrue env view path w.log last.world) := by
  have same := ready.chunkHashPrefix spec
  by_cases requested : ∃ request ∈ s.filePrepRequests, request.remotePath = path
  · obtain ⟨request, inside, rfl⟩ := requested
    obtain ⟨content, read⟩ := ready.readable inside
    refine (pushScanned_path spec injective (fun _ => read) same
      (ready.considerate_request distinct inside (ready.notTaken noMigration _ content))
      (ready.tracked_request spec distinct truthful inside content)
      fun link queued => ready.request_ne_link distinct inside queued).strengthen fun _ last holds => ?_
    obtain ⟨next, -, outcome⟩ := holds
    exact outcome.log
  · have absent : ∀ request ∈ s.filePrepRequests, request.remotePath ≠ path :=
      fun request inside own => requested ⟨request, inside, own⟩
    have tracked := ready.tracked_bare spec absent False
    have considerate : ∀ request ∈ s.filePrepRequests, Considerate env (bareTarget view w False path) request :=
      ready.considerate_bare False absent False.elim
    by_cases linked : ∃ link ∈ s.pendingSymlinks, link.remotePath = path
    · obtain ⟨link, queued, own⟩ := linked
      obtain ⟨start, -, inv⟩ := ready.scanned
      obtain ⟨entry, -, found⟩ := inv.links link queued
      exact (pushScanned_link spec injective False.elim same considerate tracked own queued
        (inv.linkSeen link queued) (ready.link_count distinct _) found.contentHash).strengthen
          fun _ last holds => holds.1
    · refine (pushScanned_path spec injective False.elim same considerate tracked
        fun link queued own => linked ⟨link, queued, own⟩).strengthen fun _ last holds => ?_
      obtain ⟨next, -, outcome⟩ := holds
      exact outcome.log

/-- The message of a refused upload of the path has the words that are taken for an answer 403. -/
def MentionsForbidden (path : Text) (error : ClientError) : Prop :=
  contains (failedToUpload path error) (text "403 Forbidden") = true

/-- When only real answers 403 have these words, every synced record that a push writes tells what the
remote holds at that moment, but for the records of uploads that the engine answered with 403. -/
theorem pushSync_synced_truthful (env : Env ρ) (view : ρ → Text → Option RemoteEntry) (hashPrefix : Text)
    (spec : EngineSpec env.digest hashPrefix env.engine view) (injective : Function.Injective env.digest)
    (relationship : SyncRelationship) (others : List SyncRelationship) (mode : PushScanMode) (w : World ρ)
    (utf8 : ∀ l, w.disk.resolve true relationship.localBase = .ok l → Utf8Names w.disk l)
    (noMigration : w.store.migration = none) (truthful : RecordsTruthful env view w) :
    ∃ new, (pushSync env relationship others mode w).2.log = new ++ w.log ∧
      ((∀ path error, .uploadFailed path error ∈ new → MentionsForbidden path error →
          isEngineForbidden error = true) →
        ∀ record remote, .recorded record remote ∈ new → record.syncStatus = .synced →
          Holds env.digest (view remote) record.path record.contentHash ∨
            ∃ error, .uploadFailed record.path error ∈ new ∧ isEngineForbidden error = true) := by
  have run : ∀ path, LogTrue env view path w.log (pushSync env relationship others mode w).2 := by
    intro path
    refine Triple.reached (pushSync_triple (w := w) (fun _ next begun => ?_)
      fun config l entries s ready => ready.logTrue spec injective (utf8 l ready.reaches.here).pathsApart noMigration
        truthful path) rfl
    exact ⟨[], begun.log, fun _ _ inside => (List.not_mem_nil inside).elim⟩
  obtain ⟨new, equal, -⟩ := run []
  refine ⟨new, equal, fun honest record remote inside synced => ?_⟩
  obtain ⟨other, same, truth⟩ := run record.path
  have agree : other = new := List.append_cancel_right (same.symm.trans equal)
  subst other
  refine (truth record remote inside rfl synced).imp_right ?_
  rintro ⟨error, failed, forbidden⟩
  refine ⟨error, failed, ?_⟩
  rcases Bool.or_eq_true _ _ ▸ forbidden with mentions | refused
  · exact honest _ error failed mentions
  · exact refused

/-- Each record that was written, with what the remote held at its path. -/
def recordings (view : ρ → Text → Option RemoteEntry) (log : List (Event ρ)) :
    List (FileSyncMeta × Option RemoteEntry) :=
  log.filterMap fun event => match event with
    | .recorded record remote => some (record, view remote record.path)
    | _ => none

def uploadFailures (log : List (Event ρ)) : List (Text × ClientError) :=
  log.filterMap fun event => match event with
    | .uploadFailed path error => some (path, error)
    | _ => none

theorem exists_recorded {log : List (Event ρ)} {record : FileSyncMeta} {there : Option RemoteEntry}
    (inside : (record, there) ∈ recordings view log) :
    ∃ remote, .recorded record remote ∈ log ∧ view remote record.path = there := by
  obtain ⟨event, listed, equal⟩ := List.mem_filterMap.mp inside
  cases event <;> simp_all
  obtain ⟨rfl, rfl⟩ := equal
  exact ⟨_, listed, rfl⟩

theorem mem_uploadFailures {log : List (Event ρ)} {path : Text} {error : ClientError}
    (inside : .uploadFailed path error ∈ log) : (path, error) ∈ uploadFailures log :=
  List.mem_filterMap.mpr ⟨_, inside, rfl⟩

def oneNewFile : World Shelf :=
  startWorld (homeTree [("kept.txt", .file [65] 5), ("new.txt", .file [66] 6)])
    [syncedRecord "/docs/kept.txt" [65] 5] (Shelf.holding [("/docs/kept.txt", .file [65])])

theorem pushSync_synced_truthful_oneNewFile :
    ∃ new, (pushSync shelfEnv (docsRelationship none) [] .full oneNewFile).2.log = new ++ oneNewFile.log ∧
      ((∀ path error, .uploadFailed path error ∈ new → MentionsForbidden path error →
          isEngineForbidden error = true) →
        ∀ record remote, .recorded record remote ∈ new → record.syncStatus = .synced →
          Holds plainDigest (Shelf.entries remote) record.path record.contentHash ∨
            ∃ error, .uploadFailed record.path error ∈ new ∧ isEngineForbidden error = true) := by
  refine pushSync_synced_truthful shelfEnv Shelf.entries [] (Shelf.spec plainConfig rfl) plainDigest_injective
    (docsRelationship none) [] .full oneNewFile (fun l _ => utf8Names_of_keys (by decide) l) rfl ?_
  exact recordsTruthful_of_list (by decide)

/-- This engine refuses every manifest as malformed. -/
def refusingEngine : Engine Shelf :=
  { Shelf.engine plainConfig with
    blobCommit := fun _ s => (.error (.upstreamRejected 400 (text "bad manifest")), s) }

theorem refusingEngine_spec : EngineSpec plainDigest [] refusingEngine Shelf.entries :=
  { Shelf.spec plainConfig rfl with
    blobCommit_other := fun _ _ _ _ => rfl
    blobCommit_ok := fun _ _ _ impossible => by cases impossible }

def misleadingName : World Shelf :=
  startWorld (homeTree [("403 Forbidden.txt", .file [65] 5)]) [] (Shelf.holding [])

/-- A file whose name has these words is recorded as synced although its upload was refused as malformed. -/
theorem pushSync_records_unsent :
    EngineSpec plainDigest [] (calmEnv refusingEngine).engine Shelf.entries ∧
      Utf8Names misleadingName.disk [osText (text "home")] ∧ misleadingName.store.migration = none ∧
      RecordsTruthful (calmEnv refusingEngine) Shelf.entries misleadingName ∧
      (∃ record remote, .recorded record remote ∈
          (pushSync (calmEnv refusingEngine) (docsRelationship none) [] .full misleadingName).2.log ∧
        record.syncStatus = .synced ∧
        ¬ Holds plainDigest (Shelf.entries remote) record.path record.contentHash) ∧
      ∀ path error, .uploadFailed path error ∈
          (pushSync (calmEnv refusingEngine) (docsRelationship none) [] .full misleadingName).2.log →
        isEngineForbidden error = false := by
  refine ⟨refusingEngine_spec, utf8Names_of_keys (by decide) _, rfl,
    (fun path record found => by cases found), ?_, ?_⟩
  · have written : ((⟨text "/docs/403 Forbidden.txt", plainDigest [65], 1, 5, .synced, 23⟩ : FileSyncMeta), none) ∈
        recordings Shelf.entries
          (pushSync (calmEnv refusingEngine) (docsRelationship none) [] .full misleadingName).2.log := by decide
    obtain ⟨remote, recorded, absent⟩ := exists_recorded written
    refine ⟨_, remote, recorded, rfl, ?_⟩
    rintro ⟨entry, present, -⟩
    rw [absent] at present
    cases present
  · intro path error failed
    have failures : uploadFailures
        (pushSync (calmEnv refusingEngine) (docsRelationship none) [] .full misleadingName).2.log =
          [(text "/docs/403 Forbidden.txt", .upstreamRejected 400 (text "bad manifest"))] := by decide
    have listed := mem_uploadFailures failed
    rw [failures, List.mem_singleton, Prod.mk.injEq] at listed
    rw [listed.2]
    rfl

end AeordbSync

import AeordbSync.Push.Completeness

namespace AeordbSync
open Characters OsPath FileSystem Effect

variable {ρ : Type} {env : Env ρ} {view : ρ → Text → Option RemoteEntry} {hashPrefix : Text}
  {relationship : SyncRelationship} {others : List SyncRelationship} {mode : PushScanMode}
  {w : World ρ} {config : BlobConfig} {l : Location} {entries : List PathBuf} {s : PushState ρ}

/-- The tree and the records leave nothing for a pending migration to confuse. -/
structure MigrationSafe (env : Env ρ) (relationship : SyncRelationship) (others : List SyncRelationship)
    (mode : PushScanMode) (w : World ρ) : Prop where
  distinct : ∀ l, w.disk.Reaches relationship.localBase l → PathsApart relationship others w.disk l
  /-- A file without a record at its new path does not have the content of the file whose new path is its
  old one. -/
  notTaken : ∀ l names other content bytes time moment, w.disk.Reaches relationship.localBase l →
    WalkedFile env relationship others w.disk l names content time →
    WalkedFile env relationship others w.disk l other bytes moment →
    relationship.remotePathAt other ≠ relationship.remotePathAt names →
    w.store.migration.bind (migrationOldRemotePathForEntry (below relationship.localBase other)) =
      some (relationship.remotePathAt names) →
    w.store.files.find (relationship.remotePathAt other) = none → bytes ≠ content
  trusted : mode = .lite → SkipsTrusted env relationship others w
  unlike : ∀ l names content time target, w.disk.Reaches relationship.localBase l →
    WalkedFile env relationship others w.disk l names content time →
    symlinkIdentityText (relationship.remotePathAt names) target ≠ content

theorem migrationOldRemotePathForEntry_under {entryPath : PathBuf} {migration : SyncPathMigration} {path : Text}
    (old : migrationOldRemotePathForEntry entryPath migration = some path) :
    isUnderRemoteBase path migration.oldRemotePath = true := by
  simp only [migrationOldRemotePathForEntry] at old
  split at old
  · rw [← Option.some.inj old]
    exact computeRemotePath_under _ _
  · split at old
    · cases old
    split at old
    · cases old
    split at old
    · split at old
      · rw [← Option.some.inj old]
        exact computeRemotePath_under _ _
      · cases old
    · cases old

/-- When neither root lies below the other, no old path is a new path. -/
theorem notTaken_of_disjoint {migration : SyncPathMigration} (pending : w.store.migration = some migration)
    (oldApart : isUnderRemoteBase (trimEndMatches '/' migration.oldRemotePath) relationship.remotePath = false)
    (newApart : isUnderRemoteBase (trimEndMatches '/' relationship.remotePath) migration.oldRemotePath = false)
    {entryPath : PathBuf} {names : List OsText} :
    w.store.migration.bind (migrationOldRemotePathForEntry entryPath) ≠
      some (relationship.remotePathAt names) := by
  intro old
  rw [pending] at old
  have below := migrationOldRemotePathForEntry_under old
  rcases isUnderRemoteBase_nested below (computeRemotePath_under _ relationship.remotePath) with nested | nested
  · rw [nested] at newApart
    cases newApart
  · rw [nested] at oldApart
    cases oldApart

namespace PushReady

variable (ready : PushReady env relationship others mode w config l entries s)
include ready

theorem notTaken_of_safe (injective : Function.Injective env.digest)
    (safe : MigrationSafe env relationship others mode w) {names : List OsText} {content : Bytes} {time : Int}
    (file : WalkedFile env relationship others w.disk l names content time) :
    NotTaken env w.disk s.filePrepRequests (relationship.remotePathAt names) content := by
  intro request inside different migrates unrecorded bytes read
  obtain ⟨other, found, moment, walked, -, asked⟩ := ready.requested inside
  have named : (pushContext relationship others mode config w).entryRemotePath
      (below relationship.localBase other) = relationship.remotePathAt other :=
    entryRemotePath_below walked.present
  have own := asked.remotePath.trans named
  have same : bytes = found := by
    rw [asked.entryPath, (ready.reaches.file_present walked.nonempty walked.present).1, Except.ok.injEq] at read
    exact read.symm
  subst bytes
  refine injective.ne (safe.notTaken l names other content found time moment ready.reaches file walked
    (own ▸ different) ?_ ?_)
  · exact asked.migrationOld.symm.trans migrates
  · rw [← own, ← asked.storedMeta, unrecorded]

/-- At the end every record of the path tells what the remote holds there, or there is an error. -/
theorem record_true (spec : EngineSpec env.digest hashPrefix env.engine view)
    (injective : Function.Injective env.digest) (truthful : RecordsTruthful env view w)
    (safe : MigrationSafe env relationship others mode w) (path : Text) :
    Triple (· = s) (pushScanned env (pushContext relationship others mode config w))
      (fun _ last => last.errors ≠ [] ∨ ∀ record, last.world.store.files.find path = some record →
        Holds env.digest (view last.world.remote) path record.contentHash)
      (fun _ _ => True) := by
  have distinct := safe.distinct l ready.reaches
  have same := ready.chunkHashPrefix spec
  by_cases requested : ∃ request ∈ s.filePrepRequests, request.remotePath = path
  · obtain ⟨request, inside, rfl⟩ := requested
    obtain ⟨names, content, time, file, -, asked⟩ := ready.requested inside
    have own : request.remotePath = relationship.remotePathAt names :=
      asked.remotePath.trans (entryRemotePath_below file.present)
    rw [own]
    refine (ready.file_arrives spec injective distinct truthful safe.trusted file
      (ready.notTaken_of_safe injective safe file)).strengthen fun _ last holds => ?_
    exact holds.imp_right fun ⟨held, recorded⟩ record found => recorded record found ▸ held
  · have absent : ∀ request ∈ s.filePrepRequests, request.remotePath ≠ path :=
      fun request inside own => requested ⟨request, inside, own⟩
    have tracked := ready.tracked_bare spec absent False
    have considerate : ∀ request ∈ s.filePrepRequests, Considerate env (bareTarget view w False path) request :=
      ready.considerate_bare False absent False.elim
    by_cases linked : ∃ link ∈ s.pendingSymlinks, link.remotePath = path
    · obtain ⟨link, queued, own⟩ := linked
      obtain ⟨start, -, inv⟩ := ready.scanned
      obtain ⟨entry, -, found⟩ := inv.links link queued
      refine (pushScanned_link spec injective False.elim same considerate tracked own queued
        (inv.linkSeen link queued) (ready.link_count distinct _) found.contentHash).conseq (fun _ => id)
          (fun _ last holds => ?_) fun _ _ _ => trivial
      refine holds.2.imp_right fun ⟨held, time, stored⟩ record known => ?_
      rw [own] at held stored
      rw [stored, Option.some.injEq] at known
      exact known ▸ held
    · refine (pushScanned_path spec injective False.elim same considerate tracked
        fun link queued own => linked ⟨link, queued, own⟩).conseq (fun _ => id) (fun _ last holds => ?_)
          fun _ _ _ => trivial
      obtain ⟨next, done, outcome⟩ := holds
      change TailOutcome env view path w.log (pushContext relationship others mode config w) next last at outcome
      have unclaimed : next.errors ≠ [] ∨ (¬ False ∧ next.world.store.files.find path = none) ∨
        (view next.world.remote path = view w.remote path ∧
          next.world.store.files.find path = w.store.files.find path ∧ _) := done.unclaimed id
      cases outcome with
      | kept beside =>
          refine unclaimed.imp beside.errors fun rest record known => ?_
          rw [beside.stored] at known
          rcases rest with ⟨-, gone⟩ | ⟨there, stored, -⟩
          · rw [gone] at known
            cases known
          · exact (truthful path record (stored.symm.trans known)).congr (beside.there.trans there)
      | deleted later counts gone =>
          refine gone.imp_right fun gone record known => ?_
          rw [gone.2] at known
          cases known
      | forgotten later unseen migrates gone =>
          refine gone.imp_right fun gone record known => ?_
          rw [gone] at known
          cases known

end PushReady

def renamedRoot : World Shelf :=
  movedFrom "/old/" (startWorld (homeTree [("a.txt", .file [65] 5), ("b.txt", .file [65] 6)])
    [syncedRecord "/old/a.txt" [65] 5, syncedRecord "/old/b.txt" [65] 6]
    (Shelf.holding [("/old/a.txt", .file [65]), ("/old/b.txt", .file [65])]))

theorem renamedRoot_safe : MigrationSafe shelfEnv (docsRelationship none) [] .full renamedRoot where
  distinct := fun l _ => (utf8Names_of_keys (by decide) l).pathsApart
  notTaken := fun _ _ _ _ _ _ _ _ _ _ _ old =>
    absurd old (notTaken_of_disjoint rfl (by decide) (by decide))
  trusted := fun lite => by cases lite
  unlike := by
    intro l names content time target _ file like
    have short : ∀ key ∈ renamedRoot.disk.nodes.keys, ∀ content ∈ (renamedRoot.disk.node key).bind Node.content?,
        content.length < 10 := by decide
    have listed : l ++ names ∈ renamedRoot.disk.nodes.keys :=
      renamedRoot.disk.mem_keys.mpr (by rw [file.present]; exact Option.some_ne_none _)
    have bound := short _ listed content (by rw [file.present]; rfl)
    have length : (utf8 (text "symlinkid:")).length = 10 := by decide
    rw [← like] at bound
    simp only [symlinkIdentityText, List.append_assoc, List.length_append, length] at bound
    omega

/-- The old path of the inner file is the new path of the outer one, and both have the same content. -/
def nestedRoot : World Shelf :=
  movedFrom "/" (startWorld (Tree.ofList [([osText (text "home")], .directory),
      ([osText (text "home"), osText (text "docs")], .directory),
      ([osText (text "home"), osText (text "x")], .file [65] 5),
      ([osText (text "home"), osText (text "docs"), osText (text "x")], .file [65] 6)])
    [syncedRecord "/x" [65] 5, syncedRecord "/docs/x" [65] 6]
    (Shelf.holding [("/x", .file [65]), ("/docs/x", .file [65])]))

end AeordbSync

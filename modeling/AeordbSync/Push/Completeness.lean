import AeordbSync.Push.RunPaths
import AeordbSync.Reference

namespace AeordbSync
open Characters OsPath FileSystem Effect

variable {ρ : Type} {env : Env ρ} {view : ρ → Text → Option RemoteEntry} {hashPrefix : Text}
  {relationship : SyncRelationship} {others : List SyncRelationship} {mode : PushScanMode}
  {w : World ρ} {config : BlobConfig} {l : Location} {entries : List PathBuf} {s : PushState ρ}

/-- The remote holds what the local node is, as far as identities tell contents and targets apart. -/
def Mirrored (there : Option RemoteEntry) (path : Text) : Node → Prop
  | .file content _ => there = some (.file content) ∨
      ∃ target, there = some (.symlink target) ∧ symlinkIdentityText path target = content
  | .symlink found _ =>
      (∃ target, there = some (.symlink target) ∧
        normalizeRemotePathLikeEngine target = normalizeRemotePathLikeEngine (toStringLossy found)) ∨
      there = some (.file (symlinkIdentityText path (toStringLossy found)))
  | _ => True

theorem symlinkIdentityText_eq {path first second : Text} :
    symlinkIdentityText path first = symlinkIdentityText path second ↔
      normalizeRemotePathLikeEngine first = normalizeRemotePathLikeEngine second := by
  constructor
  · intro equal
    have rest := List.append_cancel_left equal
    exact utf8_injective (List.cons.inj rest).2
  · intro equal
    rw [symlinkIdentityText, symlinkIdentityText, equal]

/-- A digest without collisions tells what an entry with the hash of a file is. -/
theorem mirrored_file {digest : Bytes → Text} (injective : Function.Injective digest)
    {there : Text → Option RemoteEntry} {path : Text} {content : Bytes} (time : Int)
    (holds : Holds digest there path (digest content)) : Mirrored (there path) path (.file content time) := by
  obtain ⟨entry, present, same⟩ := holds
  cases entry with
  | file bytes => exact Or.inl (by rw [present, injective same])
  | symlink target => exact Or.inr ⟨target, present, injective same⟩

theorem mirrored_symlink {digest : Bytes → Text} (injective : Function.Injective digest)
    {there : Text → Option RemoteEntry} {path : Text} {found : OsText} (time : Int)
    (holds : Holds digest there path (symlinkIdentityHash digest path (toStringLossy found))) :
    Mirrored (there path) path (.symlink found time) := by
  obtain ⟨entry, present, same⟩ := holds
  cases entry with
  | file bytes => exact Or.inr (by rw [present, injective same])
  | symlink target => exact Or.inl ⟨target, present, symlinkIdentityText_eq.mp (injective same)⟩

theorem skipsTrusted_of_times (apart : ∀ record ∈ w.store.files.list, ∀ key ∈ w.disk.nodes.keys,
    (w.disk.node key).bind Node.time? ≠ some record.modifiedAt) : SkipsTrusted env relationship others w := by
  intro l names content time record _ file found _ _ sameTime
  have same := Records.path_of_find found
  have listed : l ++ names ∈ w.disk.nodes.keys :=
    w.disk.mem_keys.mpr (by rw [file.present]; exact Option.some_ne_none _)
  refine absurd ?_ (apart record (Records.mem_list.mpr (by rwa [same])) _ listed)
  rw [file.present, sameTime]
  rfl

namespace PushReady

variable (ready : PushReady env relationship others mode w config l entries s)
include ready

/-- A run with an error after the scan ends with an error. -/
theorem fails (broken : s.errors ≠ []) (ctx : PushContext) {R : PushState ρ → Prop} :
    Triple (· = s) (pushScanned env ctx) (fun _ last => last.errors ≠ [] ∨ R last) (fun _ _ => True) := by
  have framed : KeepsFrame (fun _ => True) (fun _ => True) (fun _ => True) s (pushScanned env ctx) fun _ => True :=
    pushScanned_frame (fun _ _ => ⟨trivial, fun _ _ => trivial, fun _ _ => trivial⟩) (fun _ _ => trivial) fun _ _ _ _ => trivial
  refine framed.conseq (fun next equal => ?_) (fun _ last holds => Or.inl (holds.1.errors broken))
    fun _ _ _ => trivial
  subst equal
  exact ⟨.refl _, rfl, rfl, rfl, id, fun _ => Or.inl, fun _ _ => trivial, fun _ _ => trivial⟩

/-- A path with neither a request nor a symlink is left alone, or there is an error. -/
theorem path_untouched (spec : EngineSpec env.digest hashPrefix env.engine view)
    (injective : Function.Injective env.digest) (noMigration : w.store.migration = none) {path : Text}
    (absent : ∀ request ∈ s.filePrepRequests, request.remotePath ≠ path)
    (unlinked : ∀ link ∈ s.pendingSymlinks, link.remotePath ≠ path) :
    Triple (· = s) (pushScanned env (pushContext relationship others mode config w))
      (fun _ last => ∃ next : PushState ρ, next.seenRemotePaths = s.seenRemotePaths ∧
        TailOutcome env view path w.log (pushContext relationship others mode config w) next last ∧
        (next.errors ≠ [] ∨ (view next.world.remote path = view w.remote path ∧
          next.metadataByPath.find path = w.store.files.find path)))
      (fun _ _ => True) := by
  have apart : ∀ request ∈ s.filePrepRequests, request.migrationOldRemotePath ≠ some path := by
    intro request inside
    rw [ready.migrationOld_none noMigration inside]
    exact Option.some_ne_none _ ∘ Eq.symm
  have tracked : Tracked env view (bareTarget view w True path) False [] [] s.filePrepRequests s :=
    ready.tracked_bare spec absent True
  refine (pushScanned_path spec injective False.elim (ready.chunkHashPrefix spec)
    (ready.considerate_bare True absent fun _ => apart) tracked unlinked).conseq (fun _ => id)
      (fun _ last holds => ?_) fun _ _ _ => trivial
  obtain ⟨next, done, outcome⟩ := holds
  refine ⟨next, done.seen, outcome, (done.unclaimed id).imp_right fun rest => ?_⟩
  rcases rest with ⟨shared, -⟩ | ⟨there, -, mirror⟩
  · exact absurd trivial shared
  · exact ⟨there, mirror trivial⟩

/-- An accepted file of the walk is on the remote and truly recorded at the end, or there is an error. -/
theorem file_arrives (spec : EngineSpec env.digest hashPrefix env.engine view)
    (injective : Function.Injective env.digest) (distinct : PathsApart relationship others w.disk l)
    (truthful : RecordsTruthful env view w) (trusted : mode = .lite → SkipsTrusted env relationship others w)
    {names : List OsText} {content : Bytes} {time : Int}
    (file : WalkedFile env relationship others w.disk l names content time)
    (safe : NotTaken env w.disk s.filePrepRequests (relationship.remotePathAt names) content) :
    Triple (· = s) (pushScanned env (pushContext relationship others mode config w))
      (fun _ last => last.errors ≠ [] ∨
        Holds env.digest (view last.world.remote) (relationship.remotePathAt names) (env.digest content) ∧
        ∀ record, last.world.store.files.find (relationship.remotePathAt names) = some record →
          record.contentHash = env.digest content)
      (fun _ _ => True) := by
  have named : (pushContext relationship others mode config w).entryRemotePath
      (below relationship.localBase names) = relationship.remotePathAt names :=
    entryRemotePath_below file.present
  obtain ⟨read, modified⟩ := ready.reaches.file_present file.nonempty file.present
  obtain ⟨listed, outcome⟩ := ready.outcome file.nonempty file.present rfl file.included
  rcases outcome with ⟨broken, -⟩ | outcome
  · exact ready.fails broken _
  obtain ⟨seen, rest⟩ := outcome file.accepted
  rw [named] at seen rest
  have unlinked : ∀ link ∈ s.pendingSymlinks, link.remotePath ≠ relationship.remotePathAt names :=
    fun link queued => named ▸ ready.file_ne_link distinct file.nonempty file.present listed queued
  by_cases requested : ∃ request ∈ s.filePrepRequests, request.remotePath = relationship.remotePathAt names
  · obtain ⟨request, inside, own⟩ := requested
    have asked := ready.request_of_entry distinct inside listed (own.trans named.symm)
    rw [← own] at safe seen unlinked ⊢
    refine (pushScanned_path spec injective (fun _ => asked.entryPath.symm ▸ read) (ready.chunkHashPrefix spec)
      (ready.considerate_request distinct inside safe) (ready.tracked_request spec distinct truthful inside content)
      unlinked).conseq (fun _ => id) (fun _ last holds => ?_) fun _ _ _ => trivial
    obtain ⟨next, done, outcome⟩ := holds
    exact done.landed trivial outcome seen
  · have absent : ∀ request ∈ s.filePrepRequests, request.remotePath ≠ relationship.remotePathAt names :=
      fun request inside own => requested ⟨request, inside, own⟩
    rcases rest with broken | skipped | ⟨request, inside, asked⟩
    · exact ready.fails broken _
    · obtain ⟨mtime, equal, -, skips⟩ := skipped
      rw [modified, Except.ok.injEq] at equal
      subst mtime
      obtain ⟨lite, record, known, synced, size, rfl⟩ := canLiteFastSkip_iff.mp skips
      have same := trusted lite l names content _ record ready.reaches file known synced size rfl
      have held : Holds env.digest (view w.remote) (relationship.remotePathAt names) (env.digest content) :=
        same ▸ truthful _ record known
      refine (pushScanned_path spec injective (fun _ => read) (ready.chunkHashPrefix spec)
        (ready.considerate_skipped _ _ absent safe)
        (ready.tracked_skipped spec _ absent held known ⟨same, size, rfl, synced⟩)
        unlinked).conseq (fun _ => id) (fun _ last holds => ?_) fun _ _ _ => trivial
      obtain ⟨next, done, outcome⟩ := holds
      exact done.landed trivial outcome seen
    · exact absurd (asked.remotePath.trans named) (absent request inside)

/-- A symlink of the walk is on the remote at the end, or there is an error. -/
theorem symlink_arrives (spec : EngineSpec env.digest hashPrefix env.engine view)
    (injective : Function.Injective env.digest) (distinct : PathsApart relationship others w.disk l)
    (noMigration : w.store.migration = none) (truthful : RecordsTruthful env view w) {names : List OsText}
    {found : OsText} {time : Int} (nonempty : names ≠ [])
    (present : w.disk.node (l ++ names) = some (.symlink found time))
    (included : isLocalExcludedByChild (below relationship.localBase names)
      (childLocalExclusions relationship others) = false) :
    Triple (· = s) (pushScanned env (pushContext relationship others mode config w))
      (fun _ last => last.errors ≠ [] ∨ Holds env.digest (view last.world.remote)
        (relationship.remotePathAt names)
        (symlinkIdentityHash env.digest (relationship.remotePathAt names)
          (toStringLossy found)))
      (fun _ _ => True) := by
  have named : (pushContext relationship others mode config w).entryRemotePath
      (below relationship.localBase names) = relationship.remotePathAt names := entryRemotePath_below present
  obtain ⟨listed, outcome⟩ := ready.outcome nonempty present rfl included
  rcases outcome with ⟨broken, -⟩ | ⟨seen, rest⟩
  · exact ready.fails broken _
  rw [named] at seen rest
  have absent : ∀ request ∈ s.filePrepRequests,
      request.remotePath ≠ relationship.remotePathAt names := by
    intro request inside own
    obtain ⟨content, moment, read⟩ := (ready.request_of_entry distinct inside listed (own.trans named.symm)).isFile
    rw [ready.reaches.metadata_present nonempty present] at read
    cases read
  by_cases linked : ∃ link ∈ s.pendingSymlinks,
      link.remotePath = relationship.remotePathAt names
  · obtain ⟨link, queued, own⟩ := linked
    have link_found := ready.link_of_entry distinct queued listed (own.trans named.symm)
    have considerate : ∀ request ∈ s.filePrepRequests, Considerate env (bareTarget view w False _) request :=
      ready.considerate_bare False absent False.elim
    obtain ⟨start, -, inv⟩ := ready.scanned
    refine (pushScanned_link spec injective False.elim (ready.chunkHashPrefix spec) considerate
      (ready.tracked_bare spec absent False) own queued (inv.linkSeen link queued) (ready.link_count distinct _)
      link_found.contentHash).conseq (fun _ => id) (fun _ last holds => ?_) fun _ _ _ => trivial
    obtain ⟨target, moment, read, equal⟩ := link_found.target
    rw [ready.reaches.metadata_present nonempty present, Except.ok.injEq, Node.symlink.injEq] at read
    refine holds.2.imp_right fun recorded => ?_
    have identity := recorded.1
    rw [link_found.contentHash, equal, ← read.1, own] at identity
    exact identity
  · have unlinked : ∀ link ∈ s.pendingSymlinks,
        link.remotePath ≠ relationship.remotePathAt names :=
      fun link queued own => linked ⟨link, queued, own⟩
    rcases rest with broken | skips | ⟨link, queued, link_found⟩
    · exact ready.fails broken _
    · have held : Holds env.digest (view w.remote) (relationship.remotePathAt names)
          (symlinkIdentityHash env.digest (relationship.remotePathAt names)
            (toStringLossy found)) := by
        obtain ⟨-, record, known, -, same⟩ := canLiteFastSkipSymlink_iff.mp skips
        exact same ▸ truthful _ record known
      refine (ready.path_untouched spec injective noMigration absent unlinked).strengthen fun _ last holds => ?_
      obtain ⟨next, kept, outcome, same⟩ := holds
      have beside := outcome.beside (by rw [kept]; exact seen)
      exact same.imp beside.errors fun same => held.congr (beside.there.trans same.1)
    · exact absurd (link_found.remotePath.trans named) (unlinked link queued)

/-- A recorded path that has no local entry is gone at the end, or there is an error. -/
theorem record_gone (spec : EngineSpec env.digest hashPrefix env.engine view)
    (injective : Function.Injective env.digest) (noMigration : w.store.migration = none)
    (propagates : relationship.deletePropagation.localToRemote = true) {path : Text}
    (recorded : path ∈ w.store.files.paths)
    (absent : ∀ names node, names ≠ [] → w.disk.node (l ++ names) = some node →
      (node.isFile || node.isSymlink) = true → relationship.remotePathAt names ≠ path)
    (uncovered : isExcludedByChild path (childExclusions relationship others) = false) :
    Triple (· = s) (pushScanned env (pushContext relationship others mode config w))
      (fun _ last => Gone view path last) (fun _ _ => True) := by
  obtain ⟨start, onDisk, inv⟩ := ready.scanned
  have unseen : path ∉ s.seenRemotePaths := by
    intro seen
    obtain ⟨entry, listed, same, -⟩ := inv.seen path seen
    obtain ⟨names, nonempty, walkable, rfl⟩ := ready.walked.sound entry listed
    obtain ⟨node, present, isEntry⟩ := walkable.kind
    exact absent names node nonempty present isEntry ((entryRemotePath_below present).symm.trans same.symm)
  have unrequested : ∀ request ∈ s.filePrepRequests, request.remotePath ≠ path :=
    fun request inside own => unseen (own ▸ inv.requestSeen request inside)
  have unlinked : ∀ link ∈ s.pendingSymlinks, link.remotePath ≠ path :=
    fun link queued own => unseen (own ▸ inv.linkSeen link queued)
  refine (ready.path_untouched spec injective noMigration unrequested unlinked).strengthen fun _ last holds => ?_
  obtain ⟨next, kept, outcome, same⟩ := holds
  cases outcome with
  | kept beside spared =>
      rcases same with failed | ⟨-, mirror⟩
      · exact Or.inl (beside.errors failed)
      · refine absurd ⟨propagates, ?_, ?_⟩ spared
        · obtain ⟨record, known⟩ := Records.mem_paths.mp recorded
          rw [mirror, known]
          exact Option.some_ne_none _
        · simp [isDeletedLocally, kept, unseen, pushContext, noMigration, uncovered]
  | deleted later counts gone => exact gone
  | forgotten later unseen migrates => exact absurd noMigration migrates

end PushReady

/-- After a push without errors the remote mirrors every accepted file and every symlink of the walk, and
what was recorded but has no local entry is gone. -/
theorem pushSync_complete (env : Env ρ) (view : ρ → Text → Option RemoteEntry) (hashPrefix : Text)
    (spec : EngineSpec env.digest hashPrefix env.engine view) (injective : Function.Injective env.digest)
    (relationship : SyncRelationship) (others : List SyncRelationship) (mode : PushScanMode) (w : World ρ)
    (utf8 : ∀ l, w.disk.resolve true relationship.localBase = .ok l → Utf8Names w.disk l)
    (noMigration : w.store.migration = none) (truthful : RecordsTruthful env view w)
    (trusted : mode = .lite → SkipsTrusted env relationship others w)
    (clean : CompletesCleanly (pushSync env relationship others mode w).1) :
    ∃ l, w.disk.Reaches relationship.localBase l ∧
      (∀ names node, names ≠ [] → w.disk.node (l ++ names) = some node →
        isLocalExcludedByChild (below relationship.localBase names)
          (childLocalExclusions relationship others) = false →
        (node.isSymlink = true ∨
          node.isFile = true ∧ Accepted env relationship (below relationship.localBase names)) →
        Mirrored (view (pushSync env relationship others mode w).2.remote (relationship.remotePathAt names))
          (relationship.remotePathAt names) node) ∧
      (relationship.deletePropagation.localToRemote = true → ∀ path ∈ w.store.files.paths,
        (∀ names node, names ≠ [] → w.disk.node (l ++ names) = some node →
          (node.isFile || node.isSymlink) = true → relationship.remotePathAt names ≠ path) →
        isExcludedByChild path (childExclusions relationship others) = false →
        view (pushSync env relationship others mode w).2.remote path = none ∧
          (pushSync env relationship others mode w).2.store.files.find path = none) := by
  obtain ⟨-, -, l, reaches⟩ := pushSync_clean (Q := fun _ _ => ∃ l, w.disk.Reaches relationship.localBase l) clean
    fun config l entries s ready => Triple.trivially (fun _ _ => ⟨l, ready.reaches⟩) fun _ _ => trivial
  have located : ∀ {config root entries s}, PushReady env relationship others mode w config root entries s →
      root = l := fun ready => Except.ok.inj (ready.reaches.here.symm.trans reaches.here)
  refine ⟨l, reaches, fun names node nonempty present included kind => ?_,
    fun propagates path recorded absent uncovered => ?_⟩
  · cases node with
    | file content time =>
        have accepted := (kind.resolve_left Bool.false_ne_true).2
        obtain ⟨result, clear, arrived⟩ := pushSync_clean (Q := fun result next => result.errors ≠ [] ∨
          Holds env.digest (view next.remote) (relationship.remotePathAt names) (env.digest content)) clean
          fun config root entries s ready => by
            have same := located ready
            subst root
            exact (ready.file_arrives spec injective (utf8 l reaches.here).pathsApart truthful trusted
              ⟨nonempty, present, included, accepted⟩ (ready.notTaken noMigration _ content)).strengthen
                fun _ _ holds => holds.imp_right And.left
        exact mirrored_file injective time (arrived.resolve_left (absurd clear))
    | symlink found time =>
        obtain ⟨result, clear, arrived⟩ := pushSync_clean (Q := fun result next => result.errors ≠ [] ∨
          Holds env.digest (view next.remote) (relationship.remotePathAt names)
            (symlinkIdentityHash env.digest (relationship.remotePathAt names) (toStringLossy found))) clean
          fun config root entries s ready => by
            have same := located ready
            subst root
            exact ready.symlink_arrives spec injective (utf8 l reaches.here).pathsApart noMigration truthful nonempty
              present included
        exact mirrored_symlink injective time (arrived.resolve_left (absurd clear))
    | directory => trivial
    | special => trivial
  · obtain ⟨result, clear, gone⟩ := pushSync_clean (Q := fun result next => result.errors ≠ [] ∨
      (view next.remote path = none ∧ next.store.files.find path = none)) clean
      fun config root entries s ready => by
        have same := located ready
        subst root
        exact ready.record_gone spec injective noMigration propagates recorded absent uncovered
    exact gone.resolve_left (absurd clear)

def mixedTree : World Shelf :=
  startWorld (homeTree [("kept.txt", .file [65] 5), ("new.txt", .file [66] 6),
      ("link", .symlink (osText (text "/docs/kept.txt")) 7)])
    [syncedRecord "/docs/kept.txt" [65] 5, syncedRecord "/docs/gone.txt" [67] 5]
    (Shelf.holding [("/docs/kept.txt", .file [65]), ("/docs/gone.txt", .file [67])])

theorem pushSync_complete_mixedTree :
    ∃ l, mixedTree.disk.Reaches (docsRelationship none).localBase l ∧
      (∀ names node, names ≠ [] → mixedTree.disk.node (l ++ names) = some node →
        isLocalExcludedByChild (below (docsRelationship none).localBase names)
          (childLocalExclusions (docsRelationship none) []) = false →
        (node.isSymlink = true ∨
          node.isFile = true ∧ Accepted shelfEnv (docsRelationship none)
            (below (docsRelationship none).localBase names)) →
        Mirrored (Shelf.entries (pushSync shelfEnv (docsRelationship none) [] .full mixedTree).2.remote
          ((docsRelationship none).remotePathAt names)) ((docsRelationship none).remotePathAt names) node) ∧
      ((docsRelationship none).deletePropagation.localToRemote = true → ∀ path ∈ mixedTree.store.files.paths,
        (∀ names node, names ≠ [] → mixedTree.disk.node (l ++ names) = some node →
          (node.isFile || node.isSymlink) = true → (docsRelationship none).remotePathAt names ≠ path) →
        isExcludedByChild path (childExclusions (docsRelationship none) []) = false →
        Shelf.entries (pushSync shelfEnv (docsRelationship none) [] .full mixedTree).2.remote path = none ∧
          (pushSync shelfEnv (docsRelationship none) [] .full mixedTree).2.store.files.find path = none) :=
  pushSync_complete shelfEnv Shelf.entries [] (Shelf.spec plainConfig rfl) plainDigest_injective
    (docsRelationship none) [] .full mixedTree (fun l _ => utf8Names_of_keys (by decide) l) rfl
    (recordsTruthful_of_list (by decide)) (fun lite => by cases lite) (by decide +kernel)

/-- The local symlink spells the target of the remote one in another way, and the bytes of the local file
are those that are hashed for the remote symlink. -/
def lookalikes : World Shelf :=
  startWorld (homeTree [("alias", .symlink (osText (text "/docs//kept.txt")) 7),
      ("note", .file (symlinkIdentityText (text "/docs/note") (text "/kept.txt")) 5)])
    [⟨text "/docs/note", symlinkIdentityHash plainDigest (text "/docs/note") (text "/kept.txt"), 0, 4, .synced, 0⟩]
    (Shelf.holding [("/docs/alias", .symlink (text "/docs/kept.txt")), ("/docs/note", .symlink (text "/kept.txt"))])

/-- A push without errors may leave another target, or a symlink in the place of a file. -/
theorem pushSync_accepts_lookalikes :
    (∀ l, Utf8Names lookalikes.disk l) ∧ lookalikes.store.migration = none ∧
      RecordsTruthful shelfEnv Shelf.entries lookalikes ∧
      SkipsTrusted shelfEnv (docsRelationship none) [] lookalikes ∧
      CompletesCleanly (pushSync shelfEnv (docsRelationship none) [] .lite lookalikes).1 ∧
      lookalikes.disk.node [osText (text "home"), osText (text "alias")] =
        some (.symlink (osText (text "/docs//kept.txt")) 7) ∧
      (pushSync shelfEnv (docsRelationship none) [] .lite lookalikes).2.remote.entries (text "/docs/alias") =
        some (.symlink (text "/docs/kept.txt")) ∧
      lookalikes.disk.node [osText (text "home"), osText (text "note")] =
        some (.file (symlinkIdentityText (text "/docs/note") (text "/kept.txt")) 5) ∧
      (pushSync shelfEnv (docsRelationship none) [] .lite lookalikes).2.remote.entries (text "/docs/note") =
        some (.symlink (text "/kept.txt")) := by
  exact ⟨utf8Names_of_keys (by decide), rfl, recordsTruthful_of_list (by decide),
    skipsTrusted_of_times (by decide), by decide +kernel, by decide, by decide +kernel, by decide,
    by decide +kernel⟩

end AeordbSync

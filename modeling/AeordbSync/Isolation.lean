import AeordbSync.Push.DeleteSafety
import AeordbSync.Push.RunPaths
import AeordbSync.Pull.Frame

namespace AeordbSync
open Characters OsPath FileSystem Effect

variable {ρ : Type} {env : Env ρ} {relationship : SyncRelationship} {others : List SyncRelationship}
  {mode : PushScanMode} {w : World ρ}

/-- A child lies below the relationship on the remote side, on the local side, or on both. -/
def IsChild (relationship child : SyncRelationship) : Prop :=
  child.id ≠ relationship.id ∧ child.remoteConnectionId = relationship.remoteConnectionId ∧
    ((relationship.remotePath <+: child.remotePath ∧ child.remotePath ≠ relationship.remotePath) ∨
      (components relationship.localBase <+: components child.localBase ∧
        components child.localBase ≠ components relationship.localBase))

instance (relationship child : SyncRelationship) : Decidable (IsChild relationship child) :=
  inferInstanceAs (Decidable (_ ∧ _ ∧ _))

def InRemoteTerritory (relationship : SyncRelationship) (others : List SyncRelationship) (path : Text) : Prop :=
  ∃ child ∈ others, IsChild relationship child ∧ child.remotePath <+: path

def InLocalTerritory (relationship : SyncRelationship) (others : List SyncRelationship) (path : PathBuf) : Prop :=
  ∃ child ∈ others, IsChild relationship child ∧ startsWith path child.localBase = true

instance (relationship : SyncRelationship) (others : List SyncRelationship) (path : Text) :
    Decidable (InRemoteTerritory relationship others path) :=
  inferInstanceAs (Decidable (∃ child ∈ others, _))

instance (relationship : SyncRelationship) (others : List SyncRelationship) (path : PathBuf) :
    Decidable (InLocalTerritory relationship others path) :=
  inferInstanceAs (Decidable (∃ child ∈ others, _))

/-- The remote paths that an effect of a push commits, uploads, links or renames. -/
def Event.pushedPaths : Event ρ → List Text
  | .committed paths => paths
  | .uploaded path => [path]
  | .linked path => [path]
  | .renamed source target => [source, target]
  | _ => []

/-- The local path that an effect of a pull writes or deletes. -/
def Event.changedPath : Event ρ → Option PathBuf
  | .localChange _ _ path => some path
  | _ => none

/-- The walk of a push meets the entry, and the filter lets it pass if it is a file. -/
structure Offers (env : Env ρ) (relationship : SyncRelationship) (others : List SyncRelationship) (disk : Tree)
    (names : List OsText) : Prop where
  nonempty : names ≠ []
  included : isLocalExcludedByChild (below relationship.localBase names)
    (childLocalExclusions relationship others) = false
  present : ∃ l node, disk.Reaches relationship.localBase l ∧ disk.node (l ++ names) = some node ∧
    (node.isSymlink = true ∨ node.isFile = true ∧ Accepted env relationship (below relationship.localBase names))

/-- What a push offers lies in no territory of a child, now and before a pending migration. -/
structure PushApart (env : Env ρ) (relationship : SyncRelationship) (others : List SyncRelationship)
    (w : World ρ) : Prop where
  offered : ∀ names, Offers env relationship others w.disk names →
    ¬ InRemoteTerritory relationship others (relationship.remotePathAt names)
  former : ∀ names migration old, Offers env relationship others w.disk names → w.store.migration = some migration →
    migrationOldRemotePathForEntry (below relationship.localBase names) migration = some old →
    ¬ InRemoteTerritory relationship others old

/-- What a pull handles has its place in no territory of a child. -/
structure PullApart (env : Env ρ) (relationship : SyncRelationship) (others : List SyncRelationship)
    (w : World ρ) : Prop where
  base : ¬ InLocalTerritory relationship others relationship.localBase
  fetched : ∀ config diff path, offeredDiff env w = .ok diff →
    (PullContext.mk relationship others config).Fetches env.globMatch diff.changes path →
    ¬ InLocalTerritory relationship others ((PullContext.mk relationship others config).localPathOf path) ∧
      ¬ InLocalTerritory relationship others (partialPath ((PullContext.mk relationship others config).localPathOf path))
  linked : ∀ config diff path, offeredDiff env w = .ok diff →
    (PullContext.mk relationship others config).Links diff.changes path →
    ¬ InLocalTerritory relationship others ((PullContext.mk relationship others config).localPathOf path)
  deleted : ∀ config diff path, offeredDiff env w = .ok diff →
    (PullContext.mk relationship others config).Deletes diff.changes path →
    ¬ InLocalTerritory relationship others ((PullContext.mk relationship others config).localPathOf path)

/-- A directory on the way to a place outside the territories lies outside them too. -/
theorem LeadsTo.outside {localPath path : PathBuf} (leads : LeadsTo localPath path)
    (apart : ¬ InLocalTerritory relationship others localPath) : ¬ InLocalTerritory relationship others path := by
  rintro ⟨child, inside, isChild, above⟩
  obtain ⟨front, before, rfl⟩ := leads
  rw [startsWith_iff, components_ofComponents before] at above
  exact apart ⟨child, inside, isChild, startsWith_iff.mpr (above.trans before)⟩

theorem FileChange.outside {localPath path : PathBuf} {change : LocalChange} (made : FileChange localPath change path)
    (apart : ¬ InLocalTerritory relationship others localPath)
    (partly : ¬ InLocalTerritory relationship others (partialPath localPath)) :
    ¬ InLocalTerritory relationship others path := by
  cases change with
  | directory => exact LeadsTo.outside made apart
  | partialFile => exact (show path = partialPath localPath from made) ▸ partly
  | removal => exact (show path = partialPath localPath from made) ▸ partly
  | file => exact (show path = localPath from made) ▸ apart
  | symlink => exact False.elim made

theorem SymlinkChange.outside {localPath path : PathBuf} {change : LocalChange}
    (made : SymlinkChange localPath change path) (apart : ¬ InLocalTerritory relationship others localPath) :
    ¬ InLocalTerritory relationship others path := by
  cases change with
  | directory => exact LeadsTo.outside made apart
  | removal => exact (show path = localPath from made) ▸ apart
  | symlink => exact (show path = localPath from made) ▸ apart
  | partialFile => exact False.elim made
  | file => exact False.elim made

namespace PushReady

variable {config : BlobConfig} {l : Location} {entries : List PathBuf} {s : PushState ρ}
  (ready : PushReady env relationship others mode w config l entries s)
include ready

theorem request_offered {request : PushFilePrepRequest} (inside : request ∈ s.filePrepRequests) :
    ∃ names, Offers env relationship others w.disk names ∧ request.remotePath = relationship.remotePathAt names ∧
      request.entryPath = below relationship.localBase names ∧
      request.migrationOldRemotePath =
        (pushContext relationship others mode config w).oldRemotePathOf (below relationship.localBase names) := by
  obtain ⟨names, content, time, file, -, asked⟩ := ready.requested inside
  refine ⟨names, ⟨file.nonempty, file.included, l, _, ready.reaches, file.present, Or.inr ⟨rfl, file.accepted⟩⟩,
    ?_, asked.entryPath, asked.migrationOld⟩
  rw [asked.remotePath, entryRemotePath_below file.present]

theorem link_offered {link : PendingSymlink} (queued : link ∈ s.pendingSymlinks) :
    ∃ names, Offers env relationship others w.disk names ∧ link.remotePath = relationship.remotePathAt names := by
  obtain ⟨start, onDisk, inv⟩ := ready.scanned
  obtain ⟨entry, listed, found⟩ := inv.links link queued
  rw [onDisk] at found
  obtain ⟨names, nonempty, walkable, rfl⟩ := ready.walked.sound entry listed
  obtain ⟨node, present, -⟩ := walkable.kind
  obtain ⟨target, time, read, -⟩ := found.target
  rw [ready.reaches.metadata_present nonempty present, Except.ok.injEq] at read
  subst node
  refine ⟨names, ⟨nonempty, walkable.included, l, _, ready.reaches, present, Or.inl rfl⟩, ?_⟩
  rw [found.remotePath, entryRemotePath_below present]

end PushReady

/-- A push whose offers lie outside the territories of the children has no effect in them. -/
theorem pushSync_isolated (apart : PushApart env relationship others w) :
    ∃ new, (pushSync env relationship others mode w).2.log = new ++ w.log ∧
      ∀ event ∈ new, ∀ path ∈ event.pushedPaths, ¬ InRemoteTerritory relationship others path := by
  refine pushSync_effects fun config l entries s ready => ?_
  refine ⟨fun path => ¬ InRemoteTerritory relationship others path, fun _ => True,
    fun path => ¬ InRemoteTerritory relationship others path, fun request inside => ?_, fun link queued => ?_,
    fun _ _ _ _ => trivial, fun event mine path listed => ?_⟩
  · obtain ⟨names, offers, own, -, old⟩ := ready.request_offered inside
    refine ⟨own ▸ apart.offered names offers, fun former legacy => ?_, fun former migrated => ?_⟩
    · rw [ready.legacy_none inside] at legacy
      cases legacy
    · rw [old] at migrated
      obtain ⟨migration, pending, same⟩ := Option.bind_eq_some_iff.mp migrated
      exact apart.former names migration former offers pending same
  · obtain ⟨names, offers, own⟩ := ready.link_offered queued
    exact own ▸ apart.offered names offers
  · cases event with
    | committed paths => exact mine path listed
    | uploaded other => exact List.mem_singleton.mp listed ▸ mine
    | linked other => exact List.mem_singleton.mp listed ▸ mine
    | renamed source target =>
        rcases List.mem_cons.mp listed with rfl | later
        · exact mine.2
        · exact List.mem_singleton.mp later ▸ mine.1
    | _ => exact absurd listed List.not_mem_nil

/-- A pull whose places lie outside the territories of the children changes nothing in them. -/
theorem pullSync_isolated (apart : PullApart env relationship others w) :
    ∃ new, (pullSync env relationship others w).2.log = new ++ w.log ∧
      ∀ event ∈ new, ∀ path ∈ event.changedPath, ¬ InLocalTerritory relationship others path := by
  let scope : PullScope := ⟨fun _ _ path => ¬ InLocalTerritory relationship others path, fun _ => True, fun _ => True⟩
  have framed : PullFramed scope w (pullSync env relationship others w).2 := by
    refine pullSync_framed (fun path leads => leads.outside apart.base) fun config diff offered =>
      ⟨fun entry change path made => ?_, fun _ _ => trivial, fun _ _ => trivial⟩
    rcases made with ⟨fetches, made⟩ | ⟨links, made⟩ | ⟨deletes, -, rfl⟩
    · obtain ⟨whole, partly⟩ := apart.fetched config diff entry offered fetches
      exact made.outside whole partly
    · exact made.outside (apart.linked config diff entry offered links)
    · exact apart.deleted config diff entry offered deletes
  obtain ⟨new, equal, all⟩ := framed.log
  refine ⟨new, equal, fun event inside path listed => ?_⟩
  have mine := all event inside
  cases event with
  | localChange entry change other => exact Option.some.inj listed ▸ mine
  | _ => cases listed

/-- The vault is another relationship of the same engine. -/
def vaultAt (remotePath localPath : String) : SyncRelationship :=
  { docsRelationship none with id := text "vault", remotePath := text remotePath, localPath := text localPath }

/-- One file in the directory `vault`. -/
def vaultTree : Tree :=
  Tree.ofList [([osText (text "home")], .directory), ([osText (text "home"), osText (text "vault")], .directory),
    ([osText (text "home"), osText (text "vault"), osText (text "key")], .file [65] 5)]

/-- The engine offers the same file. -/
def vaultWorld (disk : Tree) : World Shelf :=
  startWorld disk [] { Shelf.holding [] with
    chunks := [[65]]
    diffs := [⟨text "next", ⟨[⟨text "/docs/vault/key", [], 1, none, [plainDigest [65]]⟩], [], [], [], [], []⟩⟩] }

end AeordbSync

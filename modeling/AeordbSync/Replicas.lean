import AeordbSync.Pull.Mirror
import AeordbSync.Push.Completeness

namespace AeordbSync
open Characters OsPath FileSystem Effect

variable {ρ : Type} {view : ρ → Text → Option RemoteEntry}

/-- A push that reports no error, by a client whose records are true. -/
structure CleanPush (env : Env ρ) (view : ρ → Text → Option RemoteEntry) (hashPrefix : Text)
    (relationship : SyncRelationship) (others : List SyncRelationship) (mode : PushScanMode) (w : World ρ) : Prop where
  spec : EngineSpec env.digest hashPrefix env.engine view
  distinct : Function.Injective env.digest
  utf8 : ∀ l, w.disk.resolve true relationship.localBase = .ok l → Utf8Names w.disk l
  noMigration : w.store.migration = none
  truthful : RecordsTruthful env view w
  trusted : mode = .lite → SkipsTrusted env relationship others w
  clean : CompletesCleanly (pushSync env relationship others mode w).1

/-- A push has to send the node. -/
structure Sendable (env : Env ρ) (relationship : SyncRelationship) (others : List SyncRelationship) (disk : Tree)
    (l : Location) (names : List OsText) (node : Node) : Prop where
  nonempty : names ≠ []
  present : disk.node (l ++ names) = some node
  included : isLocalExcludedByChild (below relationship.localBase names)
    (childLocalExclusions relationship others) = false
  kind : node.isSymlink = true ∨ node.isFile = true ∧ Accepted env relationship (below relationship.localBase names)

/-- The path was recorded, and nothing is left for it below the root. -/
structure DroppedLocally (relationship : SyncRelationship) (others : List SyncRelationship) (w : World ρ) (l : Location)
    (path : Text) : Prop where
  propagates : relationship.deletePropagation.localToRemote = true
  recorded : path ∈ w.store.files.paths
  absent : ∀ names node, names ≠ [] → w.disk.node (l ++ names) = some node →
    (node.isFile || node.isSymlink) = true → relationship.remotePathAt names ≠ path
  uncovered : isExcludedByChild path (childExclusions relationship others) = false

namespace CleanPush

variable {env : Env ρ} {hashPrefix : Text} {relationship : SyncRelationship} {others : List SyncRelationship}
  {mode : PushScanMode} {w : World ρ} {l : Location} (push : CleanPush env view hashPrefix relationship others mode w)
  (reaches : w.disk.Reaches relationship.localBase l)
include push reaches

/-- What the rest of the push leads to after its scan, unless it reports an error, the push has led to. -/
theorem ended {Q : World ρ → Prop} (late : ∀ config entries s,
    PushReady env relationship others mode w config l entries s →
      Triple (· = s) (pushScanned env (pushContext relationship others mode config w))
        (fun _ s => s.errors ≠ [] ∨ Q s.world) (fun _ _ => True)) :
    Q (pushSync env relationship others mode w).2 := by
  obtain ⟨result, clear, outcome⟩ := pushSync_clean (Q := fun result next => result.errors ≠ [] ∨ Q next) push.clean
    fun config root entries s ready => by
      have same : root = l := Except.ok.inj (ready.reaches.here.symm.trans reaches.here)
      subst root
      exact late config entries s ready
  exact outcome.resolve_left (absurd clear)

theorem sends {names : List OsText} {node : Node} (sendable : Sendable env relationship others w.disk l names node) :
    Mirrored (view (pushSync env relationship others mode w).2.remote (relationship.remotePathAt names))
      (relationship.remotePathAt names) node := by
  have apart : PathsApart relationship others w.disk l := (push.utf8 l reaches.here).pathsApart
  cases node with
  | file content time =>
      have accepted := (sendable.kind.resolve_left Bool.false_ne_true).2
      refine mirrored_file push.distinct time (push.ended reaches (Q := fun next => Holds env.digest (view next.remote)
        (relationship.remotePathAt names) (env.digest content)) fun config entries s ready => ?_)
      exact (ready.file_arrives push.spec push.distinct apart push.truthful push.trusted
        ⟨sendable.nonempty, sendable.present, sendable.included, accepted⟩
        (ready.notTaken push.noMigration _ content)).strengthen fun _ _ holds => holds.imp_right And.left
  | symlink found time =>
      refine mirrored_symlink push.distinct time (push.ended reaches (Q := fun next => Holds env.digest (view next.remote)
        (relationship.remotePathAt names) (symlinkIdentityHash env.digest (relationship.remotePathAt names)
          (toStringLossy found))) fun config entries s ready => ?_)
      exact ready.symlink_arrives push.spec push.distinct apart push.noMigration push.truthful sendable.nonempty
        sendable.present sendable.included
  | directory => trivial
  | special => trivial

theorem drops {path : Text} (dropped : DroppedLocally relationship others w l path) :
    view (pushSync env relationship others mode w).2.remote path = none := by
  refine push.ended reaches (Q := fun next => view next.remote path = none) fun config entries s ready => ?_
  exact (ready.record_gone push.spec push.distinct push.noMigration dropped.propagates dropped.recorded dropped.absent
    dropped.uncovered).strengthen fun _ _ gone => gone.imp_right And.left

end CleanPush

namespace Replica

variable {sender receiver : Env ρ} {hashPrefix path : Text} {held : Text → Text → Option RemoteEntry}
  {source target : SyncRelationship} {nearby beside : List SyncRelationship} {mode : PushScanMode} {w start : World ρ}
  {l b : Location} {s last : Replica ρ} {actions : List (ReplicaAction ρ)}

/-- The world of a client that has the note, beside an engine that does not. -/
def noteSender : World Bool := ⟨homeTree [("note", .file [65] 5)], ⟨Records.empty.setAll [], none, none⟩, false, 0, []⟩

theorem noteSender_reaches : noteSender.disk.Reaches (docsRelationship none).localBase [osText (text "home")] :=
  Tree.reaches_of_resolve (by decide) (by decide)

theorem noteSender_clean : CleanPush noteEnv noteView [] (docsRelationship none) [] .full noteSender where
  spec := noteEngine_spec
  distinct := plainDigest_injective
  utf8 l _ := utf8Names_of_keys (by decide) l
  noMigration := rfl
  truthful := recordsTruthful_of_list (by decide)
  trusted lite := by cases lite
  clean := by decide +kernel

theorem note_sendable : Sendable noteEnv (docsRelationship none) [] noteSender.disk [osText (text "home")]
    [osText (text "note")] (.file [65] 5) :=
  ⟨by decide, by decide, by decide +kernel, Or.inr ⟨rfl, text "note", by decide +kernel, rfl⟩⟩

end Replica

end AeordbSync

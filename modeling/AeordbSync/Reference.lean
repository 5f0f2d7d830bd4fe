import AeordbSync.World

namespace AeordbSync
open Characters OsPath FileSystem Effect

/-- An engine that keeps what it is given and serves the differences it was told to serve. -/
structure Shelf where
  entries : Text → Option RemoteEntry
  chunks : List Bytes
  diffs : List RemoteSyncDiffResponse

/-- Each byte is one character, so no two contents share a digest. -/
def plainDigest (bytes : Bytes) : Text := bytes.map fun b => Char.ofNat b.toNat

theorem plainDigest_injective : Function.Injective plainDigest := by
  refine List.map_injective_iff.mpr fun a b equal => ?_
  have valid : ∀ c : UInt8, (Char.ofNat c.toNat).toNat = c.toNat := by
    intro c
    have small := c.toNat_lt
    have valid : c.toNat.isValidChar := Or.inl (by omega)
    rw [Char.ofNat, dif_pos valid]
    rfl
  have same := congrArg Char.toNat equal
  rw [valid, valid] at same
  exact UInt8.toNat_inj.mp same

namespace Shelf

def set (shelf : Shelf) (path : Text) (entry : Option RemoteEntry) : Shelf :=
  { shelf with entries := fun other => if other = path then entry else shelf.entries other }

def chunkOf (shelf : Shelf) (hash : Text) : Option Bytes :=
  shelf.chunks.find? fun bytes => plainDigest bytes = hash

/-- A file is made of its chunks, all of which must be known. -/
def assemble (shelf : Shelf) (hashes : List Text) : Option Bytes :=
  (hashes.mapM shelf.chunkOf).map List.flatten

def commitFile (source shelf : Shelf) (file : CommitFile) : Shelf :=
  shelf.set file.path ((source.assemble file.chunks).map RemoteEntry.file)

def unknownChunk : ClientError := .upstreamRejected 400 (text "unknown chunk")

def absent : ClientError := .upstreamRejected 404 (text "not found")

def emptyDiff : RemoteSyncDiffResponse := ⟨[], ⟨[], [], [], [], [], []⟩⟩

def engine (config : BlobConfig) : Engine Shelf where
  blobConfig := fun s => (.ok config, s)
  blobCheckOnce hashes := fun s => (.ok ⟨hashes.filter fun hash => (s.chunkOf hash).isSome,
    hashes.filter fun hash => (s.chunkOf hash).isNone⟩, s)
  uploadChunk hash bytes := fun s =>
    if plainDigest bytes = hash then (.ok (), { s with chunks := bytes :: s.chunks })
    else (.error unknownChunk, s)
  blobCommit files := fun s =>
    if ∀ file ∈ files, (s.assemble file.chunks).isSome then
      (.ok (), files.foldl (commitFile s) s)
    else (.error unknownChunk, s)
  uploadFile path bytes _ := fun s => (.ok (), s.set path (some (.file bytes)))
  deleteFile path := fun s =>
    if (s.entries path).isSome then (.ok (), s.set path none) else (.error absent, s)
  createSymlink path target := fun s => (.ok (), s.set path (some (.symlink target)))
  remoteSymlinkTarget path := fun s => match s.entries path with
    | some (.symlink target) => (.ok (some target), s)
    | _ => (.ok none, s)
  renameFile source target := fun s => match s.entries source with
    | none => (.error absent, s)
    | some entry => (.ok (), (s.set source none).set target (some entry))
  remotePathHasContentHash _ path hash := fun s => match s.entries path with
    | some (.file content) => (.ok (decide (plainDigest content = hash)), s)
    | _ => (.ok false, s)
  syncDiff _ := fun s => match s.diffs with
    | [] => (.ok emptyDiff, s)
    | diff :: rest => (.ok diff, { s with diffs := rest })
  syncChunks hashes := fun s => (.ok (hashes.filterMap fun hash =>
    (s.chunkOf hash).map fun bytes => (hash, bytes)), s)

theorem chunkOf_digest {shelf : Shelf} {hash : Text} {bytes : Bytes}
    (found : shelf.chunkOf hash = some bytes) : plainDigest bytes = hash := by
  simpa using List.find?_some found

theorem assemble_pieces {shelf : Shelf} {hashes : List Text} {content : Bytes}
    (assembled : shelf.assemble hashes = some content) :
    ∃ pieces : List Bytes, pieces.map plainDigest = hashes ∧ pieces.flatten = content := by
  obtain ⟨pieces, found, equal⟩ := Option.map_eq_some_iff.mp assembled
  refine ⟨pieces, ?_, equal⟩
  clear assembled equal
  induction hashes generalizing pieces with
  | nil =>
      simp only [List.mapM_nil, Option.pure_def, Option.some.injEq] at found
      subst pieces
      rfl
  | cons hash rest ih =>
      simp only [List.mapM_cons, Option.bind_eq_bind, Option.pure_def] at found
      obtain ⟨first, here, later⟩ := Option.bind_eq_some_iff.mp found
      obtain ⟨others, tail, same⟩ := Option.bind_eq_some_iff.mp later
      simp only [Option.some.injEq] at same
      subst pieces
      rw [List.map_cons, chunkOf_digest here, ih others tail]

theorem commit_other (source : Shelf) (files : List CommitFile) (shelf : Shelf) (path : Text)
    (other : ∀ file ∈ files, file.path ≠ path) :
    (files.foldl (commitFile source) shelf).entries path = shelf.entries path := by
  induction files generalizing shelf with
  | nil => rfl
  | cons file rest ih =>
      rw [List.foldl_cons, ih _ fun next inside => other next (List.mem_cons_of_mem _ inside)]
      exact if_neg (other file (List.mem_cons_self ..)).symm

theorem commit_entry (source : Shelf) (files : List CommitFile) (shelf : Shelf) {file : CommitFile}
    (inside : file ∈ files) (single : ∀ other ∈ files, other.path = file.path → other = file) :
    (files.foldl (commitFile source) shelf).entries file.path =
      (source.assemble file.chunks).map RemoteEntry.file := by
  induction files generalizing shelf with
  | nil => cases inside
  | cons first rest ih =>
      rw [List.foldl_cons]
      by_cases later : ∃ other ∈ rest, other.path = file.path
      · obtain ⟨other, listed, same⟩ := later
        have equal := single other (List.mem_cons_of_mem _ listed) same
        subst other
        exact ih _ listed fun next among => single next (List.mem_cons_of_mem _ among)
      · have here : first = file := by
          rcases List.mem_cons.mp inside with rfl | listed
          · rfl
          · exact absurd ⟨file, listed, rfl⟩ later
        subst first
        rw [commit_other _ _ _ _ fun other listed same => later ⟨other, listed, same⟩]
        exact if_pos rfl

/-- The shelf is an engine that does what it is asked to do. -/
theorem spec (config : BlobConfig) (plain : config.chunkHashPrefix = []) :
    EngineSpec plainDigest [] (engine config) Shelf.entries := by
  have chunk : chunkHash plainDigest [] = plainDigest := rfl
  refine ⟨?_, ?_, ?_, ?_, ?_, ?_, ?_, ?_, ?_⟩
  · constructor
    · exact fun _ => rfl
    · exact fun _ _ => rfl
    · intro hash bytes s
      simp only [engine]
      split <;> rfl
    · intro files s path other
      simp only [engine]
      split
      · exact commit_other s files s path other
      · rfl
    · exact fun path bytes _ s other different => if_neg different
    · intro path s other different
      simp only [engine]
      split
      · exact if_neg different
      · rfl
    · exact fun path target s other different => if_neg different
    · intro path s
      simp only [engine]
      split <;> rfl
    · intro source target s other notSource notTarget
      simp only [engine]
      split
      · rfl
      · exact (if_neg notTarget).trans (if_neg notSource)
    · intro root path hash s
      simp only [engine]
      split <;> rfl
    · intro since s
      simp only [engine]
      split <;> rfl
    · exact fun _ _ => rfl
  · rintro s _ ⟨⟩
    exact plain
  · intro files s file returned inside single
    simp only [engine] at returned ⊢
    split at returned
    next known =>
      rw [if_pos known]
      obtain ⟨content, assembled⟩ := Option.isSome_iff_exists.mp (known file inside)
      obtain ⟨pieces, hashes, equal⟩ := assemble_pieces assembled
      refine ⟨pieces, by rw [chunk, hashes], ?_⟩
      rw [commit_entry s files s inside single, assembled, equal]
      rfl
    next => cases returned
  · exact fun path bytes _ s _ => if_pos rfl
  · intro path s returned
    simp only [engine] at returned ⊢
    split at returned
    next here =>
      rw [if_pos here]
      exact if_pos rfl
    next => cases returned
  · exact fun path target s _ => ⟨target, if_pos rfl, rfl⟩
  · intro path s target returned
    simp only [engine] at returned
    split at returned
    next found here =>
      simp only [Except.ok.injEq, Option.some.injEq] at returned
      rw [here, returned]
    next => cases returned
  · intro source target s different returned
    simp only [engine] at returned ⊢
    split at returned
    next => cases returned
    next entry here =>
      rw [here]
      exact ⟨(if_neg different).trans (if_pos rfl), if_pos rfl⟩
  · intro root path hash s returned
    simp only [engine] at returned
    split at returned
    next content here =>
      simp only [Except.ok.injEq, decide_eq_true_eq] at returned
      exact ⟨content, here, returned⟩
    next => cases returned

end Shelf

def plainConfig : BlobConfig := ⟨text "plain", 4, []⟩

/-- Nothing fails, and every order is the order given. -/
def calmEnv {ρ : Type} (engine : Engine ρ) : Env ρ where
  engine := engine
  digest := plainDigest
  globMatch pattern name := pattern == name
  debugPath path := ([slash].intercalate path).map OsUnit.lossy
  parallelism := 1
  diskFault _ _ _ := none
  storeFault _ := none
  clock tick := tick
  order _ xs := xs
  order_perm _ xs := List.Perm.refl xs
  pieces _ limit content := if limit = 0 then [] else content.map fun b => [b]
  pieces_flatten := by
    intro _ limit content positive
    rw [if_neg (by omega)]
    induction content with
    | nil => rfl
    | cons b rest ih => rw [List.map_cons, List.flatten_cons, ih]; rfl
  pieces_length := by
    intro _ limit content piece inside
    split at inside
    · cases inside
    · obtain ⟨b, -, rfl⟩ := List.mem_map.mp inside
      exact ⟨by simp, by simp; omega⟩

/-- A shelf with these entries and no chunks. -/
def Shelf.holding (entries : List (String × RemoteEntry)) : Shelf where
  entries path := (entries.find? fun entry => text entry.1 = path).map Prod.snd
  chunks := []
  diffs := []

/-- The root of the tree has one directory, and every file lies in it. -/
def homeTree (files : List (String × Node)) : Tree :=
  Tree.ofList (([osText (text "home")], .directory) ::
    files.map fun file => ([osText (text "home"), osText (text file.1)], file.2))

/-- The state after the remote root was changed to `/docs/`. -/
def movedFrom (oldRemotePath : String) (w : World Shelf) : World Shelf :=
  { w with store := { w.store with
      migration := some ⟨text "docs", text oldRemotePath, text "/docs/", text "/home", text "/home", 0⟩ } }

def syncedRecord (path : String) (content : Bytes) (modified : Int) : FileSyncMeta :=
  ⟨text path, plainDigest content, content.length, modified, .synced, 0⟩

/-- The relationship between `/docs/` and `/home`, with deletions passed on both ways. -/
def docsRelationship (filter : Option String) : SyncRelationship where
  id := text "docs"
  name := text "Documents"
  remoteConnectionId := text "engine"
  remotePath := text "/docs/"
  localPath := text "/home"
  direction := .bidirectional
  filter := filter.map text
  deletePropagation := ⟨true, true⟩
  enabled := true

def startWorld (disk : Tree) (records : List FileSyncMeta) (remote : Shelf) : World Shelf where
  disk := disk
  store := ⟨Records.empty.setAll records, none, none⟩
  remote := remote
  tick := 0
  log := []

def shelfEnv : Env Shelf := calmEnv (Shelf.engine plainConfig)

end AeordbSync

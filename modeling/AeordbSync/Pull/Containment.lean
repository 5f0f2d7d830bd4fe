import AeordbSync.Library.Confinement
import AeordbSync.Pull.Frame
import AeordbSync.Reference

namespace AeordbSync
open Characters OsPath FileSystem Effect

variable {ρ α β : Type} {env : Env ρ}

/-- The part of a remote path that is joined to the local path, cut at its separators. -/
def PullContext.segments (ctx : PullContext) (remotePath : Text) : PathBuf :=
  let base := trimEndMatches '/' ctx.relationship.remotePath
  let relative := if base <+: remotePath then remotePath.drop base.length else remotePath
  ofText (osText (trimStartMatches '/' relative))

def partialSuffix : OsText := osText (text ".aeordb-pull.tmp")

theorem isAbsolute_trimmed (path : Text) : isAbsolute (ofText (osText (trimStartMatches '/' path))) = false := by
  cases start : trimStartMatches '/' path with
  | nil => decide
  | cons c rest =>
      have different : c ≠ '/' := by
        have first := List.head?_dropWhile_not (· == '/') path
        rw [show path.dropWhile (· == '/') = c :: rest from start] at first
        simpa using first
      have other : (OsUnit.char c == slash) = false := by simp [slash, different]
      obtain ⟨head, tail, parts⟩ := List.exists_cons_of_ne_nil (List.splitOn_ne_nil slash (osText rest))
      show isAbsolute ((OsUnit.char c :: osText rest).splitOn slash) = false
      rw [List.splitOn_cons_eq_if_modifyHead, other, if_neg Bool.false_ne_true, parts]
      rfl

theorem PullContext.segments_ne (ctx : PullContext) (remotePath : Text) : ctx.segments remotePath ≠ [] :=
  List.splitOn_ne_nil _ _

/-- The local path of an entry is joined from texts alone. -/
theorem PullContext.localPathOf_eq (ctx : PullContext) (remotePath : Text) :
    ctx.localPathOf remotePath = openEnd ctx.relationship.localBase ++ ctx.segments remotePath := by
  simp only [PullContext.localPathOf, computeLocalPath, join, isAbsolute_trimmed, Bool.false_eq_true, if_false,
    PullContext.segments]

theorem pushText_append {front names : PathBuf} (some : names ≠ []) (suffix : OsText) :
    pushText (front ++ names) suffix = front ++ pushText names suffix := by
  obtain ⟨init, last, rfl⟩ := (List.eq_nil_or_concat names).resolve_left some
  rw [List.concat_eq_append, ← List.append_assoc]
  simp [pushText]

theorem PullContext.partialPath_eq (ctx : PullContext) (remotePath : Text) :
    partialPath (ctx.localPathOf remotePath) =
      openEnd ctx.relationship.localBase ++ pushText (ctx.segments remotePath) partialSuffix := by
  rw [ctx.localPathOf_eq]
  exact pushText_append (ctx.segments_ne remotePath) _

theorem PullContext.partialSegments_ne (ctx : PullContext) (remotePath : Text) :
    pushText (ctx.segments remotePath) partialSuffix ≠ [] := by
  unfold pushText
  split <;> simp

section Programs

variable {I : Tree → Prop} {F : α → Prop}

theorem keeping_note {event : Event ρ} : Keeping (fun w : World ρ => I w.disk) (note event) fun _ => True :=
  note_triple fun _ before => ⟨before, trivial⟩

theorem keeping_readDisk {call : DiskCall} {path : PathBuf} {f : Tree → Except IoError α} :
    Keeping (fun w : World ρ => I w.disk) (readDisk env call path f) fun _ => True :=
  fun _ before => ⟨before, trivial⟩

theorem keeping_changeDisk {call : DiskCall} {path : PathBuf} {f : Int → Tree → Except IoError (α × Tree)}
    (kept : ∀ now disk a next, I disk → f now disk = .ok (a, next) → I next ∧ F a) :
    Keeping (fun w : World ρ => I w.disk) (changeDisk env call path f) fun r => ∀ a, r = .ok a → F a := by
  refine changeDisk_triple (fun _ _ before _ => ⟨before, fun a equal => by cases equal⟩) ?_
  intro w a disk before done
  obtain ⟨after, known⟩ := kept _ _ _ _ before done
  refine ⟨after, fun b equal => ?_⟩
  cases equal
  exact known

theorem keeping_callRemote {x : Proc ρ ClientError α} :
    Keeping (fun w : World ρ => I w.disk) (callRemote x) fun _ => True :=
  callRemote_triple (fun _ _ before _ => ⟨before, trivial⟩) fun _ _ before _ => before

theorem keeping_now : Keeping (fun w : World ρ => I w.disk) (now env) fun _ => True :=
  fun _ before => ⟨before, trivial⟩

theorem keeping_arrange {xs : List α} : Keeping (fun w : World ρ => I w.disk) (arrange env xs) fun _ => True :=
  fun _ before => ⟨before, trivial⟩

theorem keeping_orFail {P : World ρ → Prop} {x : Program ρ (Except IoError α)}
    (keeping : Keeping P x fun r => ∀ a, r = .ok a → F a) : Keeping P (orFail x) F :=
  Keeping.bind keeping fun r known => by
    cases r with
    | ok a => exact Keeping.ret (known a rfl)
    | error error => exact Keeping.throw

theorem keeping_writeStore {f : MetadataStore → MetadataStore} {events : ρ → List (Event ρ)} :
    Keeping (fun w : World ρ => I w.disk) (writeStore env f events) fun _ => True :=
  writeStore_triple (fun _ before => ⟨before, trivial⟩) fun _ _ before => before

theorem keeping_onDisk {x : Program ρ α} (keeping : Keeping (fun w : World ρ => I w.disk) x F) :
    Keeping (fun s : PullState ρ => I s.world.disk) (onDisk x) F :=
  Keeping.zoom (fun _ _ => rfl) keeping

theorem keeping_modify {f : PullState ρ → PullState ρ} (same : ∀ s, (f s).world = s.world) :
    Keeping (fun s : PullState ρ => I s.world.disk) (Proc.modify f : PullProgram ρ Unit) fun _ => True :=
  Keeping.modify fun _ before => by rw [same]; exact before

theorem keeping_storeMeta {what : String} {record : FileSyncMeta} :
    Keeping (fun s : PullState ρ => I s.world.disk) (storeMeta env what record) fun _ => True := by
  have stored : Keeping (fun w : World ρ => I w.disk) (setFileMeta env record) fun _ => True :=
    setFileMetasBatch_triple (fun _ _ before => ⟨before, trivial⟩) (fun _ before => ⟨before, trivial⟩)
      fun _ _ before => before
  refine Keeping.bind (Keeping.attempt (keeping_onDisk stored)) fun r _ => ?_
  cases r with
  | ok _ => exact Keeping.ret trivial
  | error error => exact keeping_modify fun _ => rfl

theorem keeping_forgetDeleted {what : String} {path : Text} :
    Keeping (fun s : PullState ρ => I s.world.disk) (forgetDeleted env what path) fun _ => True := by
  refine Keeping.bind (F := fun _ => True) ?_ fun _ _ => keeping_modify fun _ => rfl
  have gone : Keeping (fun w : World ρ => I w.disk) (deleteFileMeta env path) fun _ => True := keeping_writeStore
  refine Keeping.bind (Keeping.attempt (keeping_onDisk gone)) fun r _ => ?_
  cases r with
  | ok _ => exact Keeping.ret trivial
  | error error => exact keeping_modify fun _ => rfl

theorem keeping_createDirs {entry : Text} (parts : List Component)
    (kept : ∀ front, front <+: parts.reverse → ∀ disk next, I disk →
      disk.createDir (ofComponents front) = .ok next → I next) :
    Keeping (fun w : World ρ => I w.disk) (createDirs env entry parts) fun _ => True := by
  have checks : ∀ {path : PathBuf} {error : IoError},
      Keeping (fun w : World ρ => I w.disk) (unlessDir env path error) fun _ => True :=
    fun {_ _} => Keeping.bind keeping_readDisk fun r _ => by
      rcases r with error | _ | _ <;> exact Keeping.ret trivial
  induction parts with
  | nil => exact Keeping.ret trivial
  | cons last above ih =>
      have make : Keeping (fun w : World ρ => I w.disk)
          (makeDir env entry (ofComponents (last :: above).reverse)) fun _ => True := by
        refine Keeping.bind keeping_note fun _ _ => (keeping_changeDisk (F := fun _ => True) ?_).weaken fun _ _ => trivial
        intro _ disk a next before done
        cases made : disk.createDir (ofComponents (last :: above).reverse) with
        | error error =>
            rw [made] at done
            cases done
        | ok left =>
            rw [made] at done
            cases done
            exact ⟨kept _ (List.prefix_refl _) _ _ before made, trivial⟩
      have deeper : ∀ front, front <+: above.reverse → ∀ disk next, I disk →
          disk.createDir (ofComponents front) = .ok next → I next := by
        intro front before
        refine kept front (before.trans ?_)
        rw [List.reverse_cons]
        exact List.prefix_append _ _
      refine Keeping.bind make fun r _ => ?_
      cases r with
      | ok _ => exact Keeping.ret trivial
      | error error =>
          refine Keeping.ite (fun _ => ?_) fun _ => checks
          refine Keeping.bind (ih deeper) fun r _ => ?_
          cases r with
          | error error => exact Keeping.ret trivial
          | ok _ =>
              refine Keeping.bind make fun r _ => ?_
              cases r with
              | ok _ => exact Keeping.ret trivial
              | error error => exact checks

end Programs

section Entries

variable {linked : Location → Prop} {b : Location} {start : Tree} {ctx : PullContext} {path : Text}
  {F : α → Prop}

/-- The program only changes the disk below the location, and it links only linked places. -/
def Contains (linked : Location → Prop) (b : Location) (start : Tree) (x : Program ρ α) (F : α → Prop) : Prop :=
  Keeping (fun w : World ρ => Tree.Confined linked b start w.disk) x F

/-- The same for a program with the variables of a pull. -/
def PullContains (linked : Location → Prop) (b : Location) (start : Tree) (x : PullProgram ρ α) (F : α → Prop) :
    Prop :=
  Keeping (fun s : PullState ρ => Tree.Confined linked b start s.world.disk) x F

theorem map_eq_ok {γ δ ε : Type} {r : Except ε γ} {f : γ → δ} {d : δ} (mapped : r.map f = .ok d) :
    ∃ c, r = .ok c ∧ f c = d := by
  cases r with
  | error e => cases mapped
  | ok c => exact ⟨c, rfl, Except.ok.inj mapped⟩

variable (anchored : Tree.Anchored start ctx.relationship.localBase b)
include anchored

theorem createParent_contains (stays : StaysBelow linked b false b (ctx.segments path)) :
    Contains linked b start (createParent env path (ctx.localPathOf path)) fun _ => True := by
  unfold createParent
  split
  · exact Keeping.ret trivial
  next above found =>
    refine keeping_createDirs _ fun front before disk next confined made => ?_
    rw [List.reverse_reverse, components_parent found, ctx.localPathOf_eq] at before
    refine confined.createDir (fun l reached absent => ?_) made
    exact confined.createDir_leads anchored (ctx.segments_ne path) stays before reached absent

theorem removeLocal_contains {entry : Text} (stays : StaysBelow linked b false b (ctx.segments path)) :
    Contains linked b start (removeLocal env entry (ctx.localPathOf path)) fun _ => True := by
  refine Keeping.bind keeping_note fun _ _ => (keeping_changeDisk (F := fun _ => True) ?_).weaken fun _ _ => trivial
  intro _ disk _ next confined done
  obtain ⟨left, removed, equal⟩ := map_eq_ok done
  cases equal
  refine ⟨confined.removeFile (fun l reached => ?_) removed, trivial⟩
  rw [ctx.localPathOf_eq] at reached
  exact (confined.resolve_below anchored (ctx.segments_ne path) stays reached).2

theorem deleteLocal_contains {follow : Bool} {failure what : String}
    (stays : ctx.isExcluded path = false → StaysBelow linked b false b (ctx.segments path)) :
    PullContains linked b start (deleteLocal env ctx follow failure what path) fun _ => True := by
  refine Keeping.ite (fun _ => Keeping.ret trivial) fun included => ?_
  refine Keeping.bind (keeping_onDisk keeping_readDisk) fun r _ => ?_
  cases r with
  | error error => exact keeping_forgetDeleted
  | ok _ =>
      refine Keeping.bind (keeping_onDisk (removeLocal_contains anchored (stays (Bool.eq_false_iff.mpr included))))
        fun r _ => ?_
      cases r with
      | error error => exact keeping_modify fun _ => rfl
      | ok _ => exact keeping_forgetDeleted

theorem cleanupPartial_contains {entry : Text}
    (stays : StaysBelow linked b true b (pushText (ctx.segments path) partialSuffix)) :
    Contains linked b start (cleanupPartial env entry (partialPath (ctx.localPathOf path))) fun _ => True := by
  refine Keeping.bind keeping_note fun _ _ => Keeping.bind (keeping_changeDisk (F := fun _ => True) ?_)
    fun _ _ => Keeping.ret trivial
  intro _ disk _ next confined done
  obtain ⟨left, removed, equal⟩ := map_eq_ok done
  cases equal
  refine ⟨confined.removeFile (fun l reached => ?_) removed, trivial⟩
  rw [ctx.partialPath_eq] at reached
  exact (confined.resolve_below anchored (ctx.partialSegments_ne path) stays.unfollowed reached).2

theorem orCleanup_contains {entry : Text} {x : Program ρ α} (contains : Contains linked b start x F)
    (stays : StaysBelow linked b true b (pushText (ctx.segments path) partialSuffix)) :
    Contains linked b start (orCleanup env entry (partialPath (ctx.localPathOf path)) x) F := by
  refine Keeping.bind (Keeping.attempt contains) fun r known => ?_
  cases r with
  | ok a => exact Keeping.ret (known a rfl)
  | error error => exact Keeping.bind (cleanupPartial_contains anchored stays) fun _ _ => Keeping.throw

theorem createPartial_contains {entry : Text}
    (stays : StaysBelow linked b true b (pushText (ctx.segments path) partialSuffix)) :
    Contains linked b start (createPartial env entry (partialPath (ctx.localPathOf path))) fun l => b <+: l := by
  refine Keeping.bind keeping_note fun _ _ => keeping_orFail (keeping_changeDisk ?_)
  intro _ disk l next confined done
  refine confined.create (fun l reached => ?_) done
  rw [ctx.partialPath_eq] at reached
  exact (confined.resolve_below anchored (ctx.partialSegments_ne path) stays reached).2

theorem writeChunks_contains {entry : Text} {reader : Option Location} {chunks : List LocalChunk}
    {fetched : List (Text × Bytes)} {written : Location} {hashes : List Text} (within : b <+: written)
    (stays : StaysBelow linked b true b (pushText (ctx.segments path) partialSuffix)) :
    Contains linked b start (writeChunks env entry (ctx.localPathOf path) reader chunks fetched written hashes)
      fun _ => True := by
  induction hashes with
  | nil => exact Keeping.ret trivial
  | cons hash rest ih =>
      refine Keeping.bind (F := fun _ => True) ?_ fun bytes _ => Keeping.bind (F := fun _ => True) ?_ fun _ _ =>
        Keeping.bind ih fun _ _ => Keeping.ret trivial
      · unfold chunkBytes
        split
        · exact Keeping.throw
        · refine orCleanup_contains anchored (Keeping.bind (F := fun _ => True) ?_ fun _ _ => ?_) stays
          · exact keeping_orFail (keeping_readDisk.weaken fun _ _ _ _ => trivial)
          · exact keeping_orFail (keeping_readDisk.weaken fun _ _ _ _ => trivial)
        · exact Keeping.ret trivial
        · exact orCleanup_contains anchored Keeping.throw stays
      · refine orCleanup_contains anchored (Keeping.bind keeping_note fun _ _ =>
          keeping_orFail (keeping_changeDisk ?_)) stays
        intro now disk _ next confined done
        cases done
        exact ⟨confined.append within now bytes, trivial⟩

theorem finishPartial_contains {entry : Text} (stays : StaysBelow linked b false b (ctx.segments path))
    (apart : StaysBelow linked b true b (pushText (ctx.segments path) partialSuffix)) :
    Contains linked b start (finishPartial env entry (ctx.localPathOf path)) fun _ => True := by
  refine orCleanup_contains anchored (Keeping.bind (F := fun _ => True) ?_ fun _ _ =>
    Keeping.bind keeping_note fun _ _ => keeping_orFail (keeping_changeDisk ?_)) apart
  · exact keeping_orFail (keeping_readDisk.weaken fun _ _ _ _ => trivial)
  intro _ disk _ next confined done
  obtain ⟨left, moved, equal⟩ := map_eq_ok done
  cases equal
  refine ⟨confined.rename (fun l reached => ?_) (fun l reached => ?_) moved, trivial⟩
  · rw [ctx.partialPath_eq] at reached
    have some := ctx.partialSegments_ne path
    exact ⟨(confined.resolve_below anchored some apart.unfollowed reached).2,
      confined.resolve_unlinked anchored some apart reached⟩
  · rw [ctx.localPathOf_eq] at reached
    exact (confined.resolve_below anchored (ctx.segments_ne path) stays reached).2

theorem assembleFile_contains {fetched : List (Text × Bytes)} {plan : FilePlan}
    (own : plan.localPath = ctx.localPathOf path) (stays : StaysBelow linked b false b (ctx.segments path))
    (apart : StaysBelow linked b true b (pushText (ctx.segments path) partialSuffix)) :
    Contains linked b start (assembleFile env fetched plan) fun _ => True := by
  unfold assembleFile
  rw [own]
  refine Keeping.bind (F := fun _ => True) ?_ fun reader _ => ?_
  · refine Keeping.ite (fun _ => Keeping.ret trivial) fun _ => Keeping.bind keeping_readDisk fun r _ => ?_
    cases r with
    | ok l => exact Keeping.ret trivial
    | error error => exact Keeping.ite (fun _ => Keeping.ret trivial) fun _ => Keeping.throw
  refine Keeping.bind (createPartial_contains anchored apart) fun written within => ?_
  exact Keeping.bind (writeChunks_contains anchored within apart) fun content _ =>
    Keeping.bind (finishPartial_contains anchored stays apart) fun _ _ => Keeping.ret trivial

theorem assemblePlan_contains {fetched : List (Text × Bytes)} {fetchError : Option Text} {plan : FilePlan}
    (own : plan.localPath = ctx.localPathOf path) (stays : StaysBelow linked b false b (ctx.segments path))
    (apart : StaysBelow linked b true b (pushText (ctx.segments path) partialSuffix)) :
    PullContains linked b start (assemblePlan env fetched fetchError plan) fun _ => True := by
  unfold assemblePlan
  cases fetchError with
  | some error => exact keeping_modify fun _ => rfl
  | none =>
      refine Keeping.bind (Keeping.attempt (keeping_onDisk (assembleFile_contains anchored own stays apart)))
        fun r _ => ?_
      cases r with
      | error error => exact keeping_modify fun _ => rfl
      | ok result =>
          refine Keeping.bind (keeping_onDisk keeping_now) fun time _ => ?_
          refine Keeping.bind (F := fun _ => True) (keeping_onDisk ?_) fun modified _ => ?_
          · refine Keeping.bind keeping_readDisk fun r _ => ?_
            cases r with
            | error error => exact Keeping.ret trivial
            | ok time => exact Keeping.ite (fun _ => Keeping.ret trivial) fun _ => Keeping.ret trivial
          · exact Keeping.bind keeping_storeMeta fun _ _ => keeping_modify fun _ => rfl

theorem planEntry_contains {entry : RemoteSyncFileEntry}
    (stays : ctx.isExcluded entry.path = false → ctx.accepts env.globMatch entry.path = true →
      StaysBelow linked b false b (ctx.segments entry.path)) :
    PullContains linked b start (planEntry env ctx entry)
      fun plan => ∀ made ∈ plan, PlanOf env.globMatch ctx [entry] made := by
  have nothing : ∀ made ∈ (none : Option FilePlan), PlanOf env.globMatch ctx [entry] made := fun _ impossible => by
    cases impossible
  unfold planEntry
  split
  · exact Keeping.bind (keeping_modify fun _ => rfl) fun _ _ => Keeping.ret nothing
  next included =>
    rw [Bool.not_eq_true] at included
    split
    · exact Keeping.bind (keeping_modify fun _ => rfl) fun _ _ => Keeping.ret nothing
    next accepted =>
      rw [Bool.not_eq_false] at accepted
      refine Keeping.bind (keeping_onDisk (createParent_contains anchored (stays included accepted))) fun r _ => ?_
      cases r with
      | error error => exact Keeping.bind (keeping_modify fun _ => rfl) fun _ _ => Keeping.ret nothing
      | ok _ =>
          refine Keeping.bind (F := fun _ => True) (keeping_onDisk ?_) fun chunks _ => ?_
          · refine Keeping.bind keeping_readDisk fun opened _ => ?_
            cases opened with
            | error error => exact Keeping.ret trivial
            | ok _ =>
                refine Keeping.ite (fun _ => Keeping.ret trivial) fun _ => Keeping.bind keeping_readDisk fun content _ => ?_
                cases content <;> exact Keeping.ret trivial
          · cases chunks <;> refine Keeping.ret fun made equal => ?_ <;> cases equal <;>
              exact ⟨List.mem_singleton_self _, rfl, included, accepted⟩

theorem planEntries_contains {entries : List RemoteSyncFileEntry}
    (stays : ∀ entry ∈ entries, ctx.isExcluded entry.path = false → ctx.accepts env.globMatch entry.path = true →
      StaysBelow linked b false b (ctx.segments entry.path)) :
    PullContains linked b start (planEntries env ctx entries)
      fun plans => ∀ plan ∈ plans, PlanOf env.globMatch ctx entries plan := by
  induction entries with
  | nil => exact Keeping.ret fun _ impossible => by cases impossible
  | cons entry rest ih =>
      refine Keeping.bind (planEntry_contains anchored (stays entry (List.mem_cons_self ..))) fun first made => ?_
      refine Keeping.bind (ih fun other inside => stays other (List.mem_cons_of_mem _ inside)) fun others known => ?_
      refine Keeping.ret fun plan inside => ?_
      rcases List.mem_append.mp inside with here | later
      · exact (made plan (by simpa using here)).mono fun other single =>
          List.mem_cons.mpr (Or.inl (List.mem_singleton.mp single))
      · exact (known plan later).mono fun other listed => List.mem_cons_of_mem _ listed

/-- A pulled symlink adds its own place to the linked ones. -/
theorem pullSymlink_contains {entry : RemoteSyncSymlinkEntry} {more : Location → Prop}
    (wider : ∀ q, linked q → more q)
    (stays : ctx.isExcluded entry.path = false → StaysBelow linked b false b (ctx.segments entry.path) ∧
      more (place b (ctx.segments entry.path))) :
    Triple (fun s : PullState ρ => Tree.Confined linked b start s.world.disk) (pullSymlink env ctx entry)
      (fun _ s => Tree.Confined more b start s.world.disk) (fun _ s => Tree.Confined more b start s.world.disk) := by
  have widen : ∀ t, Tree.Confined linked b start t → Tree.Confined more b start t :=
    fun t confined => confined.mono wider
  refine Triple.ite (fun _ => Triple.ret fun s confined => widen _ confined) fun included => ?_
  obtain ⟨below, own⟩ := stays (Bool.eq_false_iff.mpr included)
  have kept : ∀ {β : Type} {x : PullProgram ρ β} {G : β → Prop}, PullContains linked b start x G →
      Triple (fun s : PullState ρ => Tree.Confined linked b start s.world.disk) x
        (fun _ s => Tree.Confined linked b start s.world.disk) (fun _ s => Tree.Confined more b start s.world.disk) :=
    fun keeping => keeping.conseq (fun _ => id) (fun _ _ holds => holds.1) fun _ s holds => widen _ holds
  have after : ∀ {x : PullProgram ρ Unit}, PullContains more b start x (fun _ => True) →
      Triple (fun s : PullState ρ => Tree.Confined more b start s.world.disk) x
        (fun _ s => Tree.Confined more b start s.world.disk) (fun _ s => Tree.Confined more b start s.world.disk) :=
    fun keeping => keeping.strengthen fun _ _ holds => holds.1
  refine Triple.bind (kept (keeping_onDisk (createParent_contains anchored below))) fun r => ?_
  cases r with
  | error error => exact Triple.modify fun _ confined => widen _ confined
  | ok _ =>
      refine Triple.bind (Q := fun _ s => Tree.Confined more b start s.world.disk) ?_ fun r => ?_
      · refine Triple.zoom fun s confined => ?_
        have clear : Contains linked b start (ρ := ρ) (clearPlace env entry.path (ctx.localPathOf entry.path))
            fun _ => True := by
          refine Keeping.bind keeping_readDisk fun r _ => ?_
          cases r with
          | error error => exact Keeping.ret trivial
          | ok _ => exact Keeping.bind (removeLocal_contains anchored below) fun _ _ => Keeping.ret trivial
        refine Triple.bind (clear.conseq (fun _ equal => equal ▸ confined) (fun _ _ holds => holds.1)
          fun _ _ holds => widen _ holds) fun _ => Triple.bind (note_triple (Q := fun _ w =>
            Tree.Confined linked b start w.disk) fun _ before => before) fun _ => ?_
        refine changeDisk_triple (fun _ _ before _ => widen _ before) fun w _ disk before done => ?_
        obtain ⟨left, linkedThere, equal⟩ := map_eq_ok done
        cases equal
        refine (widen _ before).symlink (fun l reached => ?_) linkedThere
        rw [ctx.localPathOf_eq] at reached
        obtain ⟨rfl, within⟩ := before.resolve_below anchored (ctx.segments_ne entry.path) below reached
        exact ⟨within, own⟩
      · cases r with
        | error error => exact after (keeping_modify fun _ => rfl)
        | ok _ => exact after (Keeping.bind (keeping_onDisk keeping_now) fun time _ =>
            Keeping.bind keeping_storeMeta fun _ _ => keeping_modify fun _ => rfl)

end Entries

/-- The places that are linked when a pull has come past some symlink entries. -/
def LinkedAfter (ctx : PullContext) (disk : Tree) (b : Location) (front : List RemoteSyncSymlinkEntry)
    (q : Location) : Prop :=
  disk.Symlinked q ∨ ∃ entry ∈ front, ctx.isExcluded entry.path = false ∧ q = place b (ctx.segments entry.path)

instance (ctx : PullContext) (disk : Tree) (b : Location) (front : List RemoteSyncSymlinkEntry) :
    DecidablePred (LinkedAfter ctx disk b front) :=
  fun _ => inferInstanceAs (Decidable (_ ∨ ∃ entry ∈ front, _))

theorem LinkedAfter.mono {ctx : PullContext} {disk : Tree} {b q : Location}
    {front more : List RemoteSyncSymlinkEntry} (linked : LinkedAfter ctx disk b front q)
    (sub : ∀ entry ∈ front, entry ∈ more) : LinkedAfter ctx disk b more q := by
  rcases linked with old | ⟨entry, inside, rest⟩
  · exact Or.inl old
  · exact Or.inr ⟨entry, sub entry inside, rest⟩

/-- No path of the diff climbs above the root or leads through a symlink: neither through one that is on the
disk nor through one that the pull has made before it comes to the path. -/
structure DiffStays (globMatch : Text → Text → Bool) (ctx : PullContext) (disk : Tree) (b : Location)
    (changes : RemoteSyncChanges) : Prop where
  fetched : ∀ path, ctx.Fetches globMatch changes path →
    StaysBelow disk.Symlinked b false b (ctx.segments path) ∧
      StaysBelow disk.Symlinked b true b (pushText (ctx.segments path) partialSuffix)
  filesDeleted : ctx.relationship.deletePropagation.remoteToLocal = true → ∀ deleted ∈ changes.filesDeleted,
    ctx.isExcluded deleted.path = false → StaysBelow disk.Symlinked b false b (ctx.segments deleted.path)
  linked : ∀ front entry back, changes.symlinks = front ++ entry :: back → ctx.isExcluded entry.path = false →
    StaysBelow (LinkedAfter ctx disk b front) b false b (ctx.segments entry.path)
  symlinksDeleted : ctx.relationship.deletePropagation.remoteToLocal = true → ∀ deleted ∈ changes.symlinksDeleted,
    ctx.isExcluded deleted.path = false →
    StaysBelow (LinkedAfter ctx disk b changes.symlinks) b false b (ctx.segments deleted.path)

section Changes

variable {b : Location} {start : Tree} {ctx : PullContext} {changes : RemoteSyncChanges}
  (anchored : Tree.Anchored start ctx.relationship.localBase b) (stays : DiffStays env.globMatch ctx start b changes)
include anchored stays

theorem pullFiles_contains : PullContains start.Symlinked b start (pullFiles env ctx changes.files) fun _ => True := by
  have fetches : ∀ entry ∈ changes.files, ctx.isExcluded entry.path = false →
      ctx.accepts env.globMatch entry.path = true → ctx.Fetches env.globMatch changes entry.path :=
    fun entry inside included accepted => ⟨⟨entry, inside, rfl⟩, included, accepted⟩
  refine Keeping.bind (planEntries_contains anchored fun entry inside included accepted =>
    (stays.fetched _ (fetches entry inside included accepted)).1) fun plans known => ?_
  refine Keeping.bind (F := fun _ => True) (keeping_onDisk ?_) fun fetched _ => Keeping.forEach fun plan inside => ?_
  · refine Keeping.bind keeping_arrange fun needed _ => ?_
    generalize chunksOf syncChunksBatch needed = batches
    induction batches with
    | nil => exact Keeping.ret trivial
    | cons batch rest ih =>
        refine Keeping.bind (Keeping.attempt keeping_callRemote) fun r _ => ?_
        cases r with
        | error error => exact Keeping.ret trivial
        | ok pairs => exact Keeping.bind ih fun _ _ => Keeping.ret trivial
  · obtain ⟨listed, path, included, accepted⟩ := known plan inside
    obtain ⟨below, apart⟩ := stays.fetched _ (fetches plan.entry listed included accepted)
    exact assemblePlan_contains anchored path below apart

theorem pullSymlinks_contains :
    Triple (fun s : PullState ρ => Tree.Confined (LinkedAfter ctx start b []) b start s.world.disk)
      (Proc.forEach changes.symlinks (pullSymlink env ctx))
      (fun _ s => Tree.Confined (LinkedAfter ctx start b changes.symlinks) b start s.world.disk)
      (fun _ s => Tree.Confined (LinkedAfter ctx start b changes.symlinks) b start s.world.disk) := by
  refine (Triple.forEach (fun rest s => ∃ front, changes.symlinks = front ++ rest ∧
    Tree.Confined (LinkedAfter ctx start b front) b start s.world.disk) changes.symlinks ?_).conseq
    (fun s confined => ⟨[], rfl, confined⟩) ?_ fun _ _ => id
  · intro entry rest _ s before
    obtain ⟨front, whole, confined⟩ := before
    have next : changes.symlinks = (front ++ [entry]) ++ rest := by
      rw [whole, List.append_assoc, List.singleton_append]
    refine (@pullSymlink_contains _ _ _ _ _ _ anchored _ (LinkedAfter ctx start b (front ++ [entry]))
      (fun q linked => linked.mono fun _ => List.mem_append_left _) fun included =>
        ⟨stays.linked front entry rest whole included, Or.inr ⟨entry, by simp, included, rfl⟩⟩).conseq (fun _ => id)
      (fun _ s holds => ⟨_, next, holds⟩) (fun _ s holds => holds.mono fun q linked => linked.mono fun other inside => ?_)
      s confined
    rw [next]
    exact List.mem_append_left _ inside
  · rintro _ s ⟨front, whole, confined⟩
    rw [whole, List.append_nil]
    exact confined

/-- The changes of a diff that stays below the root are made below the root. -/
theorem pullChanges_contains :
    Triple (fun s : PullState ρ => Tree.Confined start.Symlinked b start s.world.disk) (pullChanges env ctx changes)
      (fun _ s => Tree.ChangedBelow b start s.world.disk) (fun _ s => Tree.ChangedBelow b start s.world.disk) := by
  have files := pullFiles_contains (ρ := ρ) anchored stays
  have deletions : ∀ {linked : Location → Prop} {deleted : List RemoteSyncDeletedEntry} {follow : Bool}
      {failure what : String}, (ctx.relationship.deletePropagation.remoteToLocal = true → ∀ entry ∈ deleted,
        ctx.isExcluded entry.path = false → StaysBelow linked b false b (ctx.segments entry.path)) →
      PullContains linked b start (ρ := ρ) (Proc.when ctx.relationship.deletePropagation.remoteToLocal
        (Proc.forEach deleted fun entry => deleteLocal env ctx follow failure what entry.path)) fun _ => True :=
    fun below => Keeping.when fun propagates => Keeping.forEach fun entry inside =>
      deleteLocal_contains anchored (below propagates entry inside)
  have weak : ∀ {linked : Location → Prop} {x : PullProgram ρ Unit}, PullContains linked b start x (fun _ => True) →
      Triple (fun s : PullState ρ => Tree.Confined linked b start s.world.disk) x
        (fun _ s => Tree.Confined linked b start s.world.disk) (fun _ s => Tree.ChangedBelow b start s.world.disk) :=
    fun keeping => keeping.conseq (fun _ => id) (fun _ _ holds => holds.1) fun _ _ holds => holds.toChangedBelow
  have links := (pullSymlinks_contains (ρ := ρ) anchored stays).conseq
    (U := fun s => Tree.Confined start.Symlinked b start s.world.disk)
    (F := fun _ s => Tree.ChangedBelow b start s.world.disk) 
    (fun _ holds => Tree.Confined.mono holds fun q link => show LinkedAfter ctx start b [] q from Or.inl link)
    (fun _ _ => id) fun _ _ holds => holds.toChangedBelow
  exact Triple.seq (weak files) (Triple.seq (weak (deletions stays.filesDeleted)) (Triple.seq links
    ((weak (deletions stays.symlinksDeleted)).strengthen fun _ _ holds => holds.toChangedBelow)))

end Changes

/-- The local path leads to the root, and no path that the pull is offered leads out of it. -/
structure PullConfined (env : Env ρ) (relationship : SyncRelationship) (others : List SyncRelationship) (w : World ρ)
    (b : Location) : Prop where
  anchored : Tree.Anchored w.disk relationship.localBase b
  stays : ∀ config diff, offeredDiff env w = .ok diff →
    DiffStays env.globMatch ⟨relationship, others, config⟩ w.disk b diff.changes

theorem ensureLocalBase_contains {relationship : SyncRelationship} {linked : Location → Prop} {b : Location}
    {start : Tree} (anchored : Tree.Anchored start relationship.localBase b) :
    Contains linked b start (ensureLocalBase env relationship) fun _ => True := by
  refine Keeping.bind keeping_readDisk fun r _ => ?_
  cases r with
  | ok _ => exact Keeping.ret trivial
  | error error =>
      refine keeping_orFail ((keeping_createDirs _ ?_).weaken fun _ _ _ _ => trivial)
      intro front before disk next confined made
      rw [List.reverse_reverse] at before
      refine confined.createDir (fun l reached absent => ?_) made
      exact absurd absent (Tree.resolve_leads (anchored.2 disk confined.toChangedBelow)
        (confined.directories b anchored.1) before reached)

/-- The calls of the disk fail from one moment on. -/
def Env.haltedAt (env : Env ρ) (moment : Nat) : Env ρ :=
  { env with diskFault := fun call path tick =>
      if tick < moment then env.diskFault call path tick else some IoError.permissionDenied }

theorem pullSync_changedBelow {relationship : SyncRelationship} {others : List SyncRelationship} {w : World ρ}
    {b : Location} (confined : PullConfined env relationship others w b) :
    Tree.ChangedBelow b w.disk (pullSync env relationship others w).2.disk := by
  have run : Triple (· = w) (pullSync env relationship others)
      (fun _ next => Tree.ChangedBelow b w.disk next.disk) (fun _ next => Tree.ChangedBelow b w.disk next.disk) := by
    refine pullSync_triple (I := Tree.Confined w.disk.Symlinked b w.disk) ⟨.refl b w.disk, fun _ _ => id⟩
      (ensureLocalBase_contains confined.anchored) (fun _ _ _ _ kept => kept.toChangedBelow) ?_
    intro config diff next _ offered _ kept
    have changed := @pullChanges_contains ρ env _ _ ⟨relationship, others, config⟩ _
      confined.anchored (confined.stays config diff offered)
    have saved : Keeping (fun s : PullState ρ => Tree.ChangedBelow b w.disk s.world.disk)
        (onDisk (saveCheckpoint env relationship diff.rootHash)) fun _ => True :=
      keeping_onDisk (Keeping.bind keeping_now fun _ _ => keeping_writeStore)
    refine (Triple.seq changed (saved.strengthen fun _ _ holds => holds.1)).weaken fun s begun => ?_
    rw [begun]
    exact kept
  exact run.reached rfl

/-- Every place whose entry differs lies in the directory that the local path leads to. -/
def WritesWithin (relationship : SyncRelationship) (before after : Tree) : Prop :=
  ∃ b, before.resolve true relationship.localBase = .ok b ∧ ∀ l, after.node l ≠ before.node l → b <+: l

/-- A pull whose offered paths stay below the root changes nothing else, at the end and at every moment of its
run. -/
theorem pullSync_writesWithin {relationship : SyncRelationship} {others : List SyncRelationship} {w : World ρ}
    {b : Location} (confined : PullConfined env relationship others w b) :
    WritesWithin relationship w.disk (pullSync env relationship others w).2.disk ∧
      ∀ moment, WritesWithin relationship w.disk (pullSync (env.haltedAt moment) relationship others w).2.disk := by
  have root := confined.anchored.2 w.disk (.refl b w.disk)
  have within : ∀ {after : Tree}, Tree.ChangedBelow b w.disk after → WritesWithin relationship w.disk after := by
    intro after changed
    refine ⟨b, root, fun l differs => ?_⟩
    by_contra outside
    exact differs (changed.outside l outside)
  exact ⟨within (pullSync_changedBelow confined), fun moment =>
    within (@pullSync_changedBelow _ (env.haltedAt moment) _ _ _ _ ⟨confined.anchored, confined.stays⟩)⟩

/-- The engine offers these changes. -/
def offeredWorld (disk : Tree) (changes : RemoteSyncChanges) : World Shelf :=
  startWorld disk [] { Shelf.holding [] with chunks := [[65]], diffs := [⟨text "next", changes⟩] }

def noteEntry (path : String) : RemoteSyncFileEntry := ⟨text path, [], 1, none, [plainDigest [65]]⟩

def linkEntry (path target : String) : RemoteSyncSymlinkEntry := ⟨text path, text path, text target⟩

/-- The local directory with one symlink, beside another directory. -/
def besideTree : Tree :=
  Tree.ofList [([osText (text "home")], .directory), ([osText (text "etc")], .directory),
    ([osText (text "home"), osText (text "old")], .symlink (osText (text "/etc")) 0)]

/-- A file below the root, a symlink that leads out of it, and the removal of a symlink. -/
def stayingChanges : RemoteSyncChanges :=
  ⟨[noteEntry "/docs/a/../b/note"], [], [], [linkEntry "/docs/out" "/etc"], [], [⟨text "/docs/old"⟩]⟩

/-- A file climbs out, and a symlink of the same diff leads the next one out. -/
def leavingChanges : RemoteSyncChanges :=
  ⟨[noteEntry "/docs/../note"], [], [], [linkEntry "/docs/out" "/etc", linkEntry "/docs/out/evil" "/"], [], []⟩

def homeContext : PullContext := ⟨docsRelationship none, [], plainConfig⟩

/-- A file is written beside the root, and a symlink is made in another directory. -/
theorem pullSync_leaves :
    ¬ WritesWithin (docsRelationship none) besideTree
      (pullSync shelfEnv (docsRelationship none) [] (offeredWorld besideTree leavingChanges)).2.disk ∧
    (pullSync shelfEnv (docsRelationship none) [] (offeredWorld besideTree leavingChanges)).2.disk.node
      [osText (text "etc"), osText (text "evil")] ≠ none := by
  refine ⟨?_, by decide +kernel⟩
  rintro ⟨b, root, within⟩
  have here : besideTree.resolve true (docsRelationship none).localBase = .ok [osText (text "home")] := by decide
  obtain rfl : [osText (text "home")] = b := Except.ok.inj (here.symm.trans root)
  exact absurd (within [osText (text "note")] (by decide +kernel)) (by decide)

theorem besideTree_anchored : Tree.Anchored besideTree (docsRelationship none).localBase [osText (text "home")] := by
  refine ⟨by decide, fun t changed => ?_⟩
  have directory := changed.directories [osText (text "home")] (by decide)
  have path : (docsRelationship none).localBase = absolute [osText (text "home")] := by decide
  rw [path]
  exact Tree.resolve_absolute directory fun target time link => by rw [directory] at link; cases link

/-- A symlink that leads out of the root does no harm when nothing is offered below it. -/
theorem pullSync_writesWithin_staying :
    WritesWithin (docsRelationship none) besideTree
      (pullSync shelfEnv (docsRelationship none) [] (offeredWorld besideTree stayingChanges)).2.disk := by
  have offered : ∀ diff, offeredDiff shelfEnv (offeredWorld besideTree stayingChanges) = .ok diff →
      diff = ⟨text "next", stayingChanges⟩ := fun diff same => (Except.ok.inj same).symm
  have confined : PullConfined shelfEnv (docsRelationship none) [] (offeredWorld besideTree stayingChanges)
      [osText (text "home")] := by
    refine ⟨besideTree_anchored, fun config diff same => ?_⟩
    rw [offered diff same]
    refine ⟨?_, ?_, ?_, ?_⟩
    · rintro path ⟨⟨entry, inside, rfl⟩, -⟩
      rw [List.mem_singleton.mp inside]
      show StaysBelow besideTree.Symlinked _ false _ (homeContext.segments _) ∧
        StaysBelow besideTree.Symlinked _ true _ (pushText (homeContext.segments _) partialSuffix)
      decide +kernel
    · intro _ deleted inside
      cases inside
    · intro front entry back whole _
      have first : front = [] ∧ entry = linkEntry "/docs/out" "/etc" := by
        rcases front with _ | ⟨other, more⟩
        · exact ⟨rfl, (List.cons.inj whole).1.symm⟩
        · have lengths := congrArg List.length whole
          simp [stayingChanges, RemoteSyncChanges.symlinks] at lengths
      rw [first.1, first.2]
      show StaysBelow (LinkedAfter homeContext besideTree _ []) _ false _ (homeContext.segments _)
      decide +kernel
    · intro _ deleted inside _
      rw [List.mem_singleton.mp inside]
      show StaysBelow (LinkedAfter homeContext besideTree _ stayingChanges.symlinks) _ false _ (homeContext.segments _)
      decide +kernel
  exact (pullSync_writesWithin confined).1

end AeordbSync

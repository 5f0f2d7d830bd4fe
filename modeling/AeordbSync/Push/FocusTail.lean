import AeordbSync.Push.FocusFiles

namespace AeordbSync
open Characters OsPath FileSystem Effect

variable {ρ : Type} {env : Env ρ} {view : ρ → Text → Option RemoteEntry} {path : Text}
  {log : List (Event ρ)} {base s next : PushState ρ} {hashPrefix : Text} {ctx : PushContext}

/-- The run has gone on: its records of the path stay true and no error is taken back. -/
structure Later (env : Env ρ) (view : ρ → Text → Option RemoteEntry) (path : Text)
    (log : List (Event ρ)) (base s : PushState ρ) : Prop where
  log : LogTrue env view path log s.world
  errors : base.errors ≠ [] → s.errors ≠ []
  seen : s.seenRemotePaths = base.seenRemotePaths

/-- The run has gone on without touching the path. -/
structure Beside (env : Env ρ) (view : ρ → Text → Option RemoteEntry) (path : Text)
    (log : List (Event ρ)) (base s : PushState ρ) : Prop extends Later env view path log base s where
  there : view s.world.remote path = view base.world.remote path
  stored : s.world.store.files.find path = base.world.store.files.find path
  mirror : s.metadataByPath.find path = base.metadataByPath.find path

theorem Beside.refl (truth : LogTrue env view path log s.world) : Beside env view path log s s :=
  ⟨⟨truth, id, rfl⟩, rfl, rfl, rfl⟩

theorem Later.onWorld (later : Later env view path log base s) {w : World ρ}
    (truth : LogTrue env view path log w) : Later env view path log base (s.withWorld w) :=
  ⟨truth, later.errors, later.seen⟩

theorem Beside.onWorld (beside : Beside env view path log base s) {w : World ρ}
    (truth : LogTrue env view path log w) (there : view w.remote path = view s.world.remote path)
    (stored : w.store.files.find path = s.world.store.files.find path) :
    Beside env view path log base (s.withWorld w) :=
  ⟨beside.toLater.onWorld truth, there.trans beside.there, stored.trans beside.stored, beside.mirror⟩

theorem Beside.still (beside : Beside env view path log base s) {w : World ρ} (unmoved : Unmoved s.world w) :
    Beside env view path log base (s.withWorld w) :=
  beside.onWorld (beside.log.congr unmoved.log) (by rw [unmoved.remote]) (by rw [unmoved.store])

theorem Beside.mirrored (beside : Beside env view path log base s) (world : next.world = s.world)
    (errors : s.errors ≠ [] → next.errors ≠ []) (seen : next.seenRemotePaths = s.seenRemotePaths)
    (mirror : next.metadataByPath.find path = s.metadataByPath.find path) :
    Beside env view path log base next :=
  ⟨⟨by rw [world]; exact beside.log, fun failed => errors (beside.errors failed), seen.trans beside.seen⟩,
    by rw [world]; exact beside.there, by rw [world]; exact beside.stored, mirror.trans beside.mirror⟩

section Links

variable {link : PendingSymlink} {mode : PushScanMode}

/-- What a symlink does to the remote and to the log. -/
structure Aside (view : ρ → Text → Option RemoteEntry) (own : Text) (w last : World ρ) : Prop where
  store : last.store = w.store
  other : ∀ path, path ≠ own → view last.remote path = view w.remote path
  log : ∃ events, last.log = events ++ w.log ∧ ∀ record remote, .recorded record remote ∉ events

theorem Aside.called {own : Text} {w last : World ρ} (aside : Aside view own w last) {remote : ρ}
    (other : ∀ path, path ≠ own → view remote path = view last.remote path) :
    Aside view own w { last with remote := remote } :=
  ⟨aside.store, fun path apart => (other path apart).trans (aside.other path apart), aside.log⟩

theorem pushOneSymlink_aside (frame : EngineFrame env.engine view) {w : World ρ} :
    Triple (· = w) (pushOneSymlink env mode link) (fun _ => Aside view link.remotePath w)
      (fun _ => Aside view link.remotePath w) := by
  have begun : Aside view link.remotePath w w :=
    ⟨rfl, fun _ _ => rfl, [], rfl, fun _ _ inside => (List.not_mem_nil inside).elim⟩
  have created : Triple (Aside view link.remotePath w) (createLink env link)
      (fun _ => Aside view link.remotePath w) (fun _ => Aside view link.remotePath w) := by
    refine Triple.bind (Q := fun _ => Aside view link.remotePath w) (note_triple fun v aside => ?_) fun _ => ?_
    · obtain ⟨events, equal, none⟩ := aside.log
      refine ⟨aside.store, aside.other, .linked link.remotePath :: events, by simp [equal], ?_⟩
      intro record remote inside
      rcases List.mem_cons.mp inside with impossible | later
      · cases impossible
      · exact none record remote later
    · refine Triple.bind (Q := fun _ => Aside view link.remotePath w) (callRemote_triple (fun v _ aside _ => ?_)
        fun v _ aside _ => ?_) fun _ => Triple.ret fun _ aside => aside
      · exact aside.called (frame.createSymlink_other _ _ _)
      · exact aside.called (frame.createSymlink_other _ _ _)
  refine Triple.weaken (P := Aside view link.remotePath w) ?_ fun v equal => by rw [equal]; exact begun
  refine Triple.ite (fun _ => ?_) fun _ => created
  refine Triple.bind (Q := fun _ => Aside view link.remotePath w) (Triple.attempt (callRemote_triple
    (fun v _ aside _ => ?_) fun v _ aside _ => ?_)) fun answer => ?_
  · exact aside.called fun path _ => congrFun (frame.remoteSymlinkTarget_view _ _) path
  · exact aside.called fun path _ => congrFun (frame.remoteSymlinkTarget_view _ _) path
  · rcases answer with _ | _ | target
    · exact created
    · exact created
    · exact Triple.ite (fun _ => Triple.ret fun _ aside => aside) fun _ => created

/-- A pushed symlink is on the remote, in the form in which the engine stores targets. -/
theorem pushOneSymlink_holds (spec : EngineSpec env.digest hashPrefix env.engine view)
    (identity : link.contentHash = symlinkIdentityHash env.digest link.remotePath link.target) :
    Triple (fun _ => True) (pushOneSymlink env mode link)
      (fun _ w => Holds env.digest (view w.remote) link.remotePath link.contentHash) (fun _ _ => True) := by
  have created : Triple (fun _ => True) (createLink env link)
      (fun _ w => Holds env.digest (view w.remote) link.remotePath link.contentHash) (fun _ _ => True) := by
    refine Triple.bind (Q := fun _ _ => True) (note_triple fun _ _ => trivial) fun _ => ?_
    refine Triple.bind (Q := fun _ w => Holds env.digest (view w.remote) link.remotePath link.contentHash)
      (callRemote_triple (fun w _ _ answer => ?_) fun _ _ _ _ => trivial) fun _ => Triple.ret fun _ holds => holds
    obtain ⟨stored, present, same⟩ := spec.createSymlink_ok _ _ _ answer
    refine ⟨_, present, ?_⟩
    rw [identity]
    simp only [RemoteEntry.identity, symlinkIdentityHash, symlinkIdentityText, same]
  refine Triple.ite (fun _ => ?_) fun _ => created
  refine Triple.bind (Q := fun answer w => ∀ target, answer = .ok (some target) →
    view w.remote link.remotePath = some (.symlink target)) (Triple.attempt (callRemote_triple
      (fun w a _ answer target equal => ?_) fun w e _ _ target equal => by cases equal)) fun answer => ?_
  · rw [Except.ok.inj equal] at answer
    exact (congrFun (spec.remoteSymlinkTarget_view _ _) _).trans (spec.remoteSymlinkTarget_ok _ _ _ answer)
  · rcases answer with _ | _ | target
    · exact created.weaken fun _ _ => trivial
    · exact created.weaken fun _ _ => trivial
    · refine Triple.ite (fun equal => Triple.ret fun w known => ?_) fun _ => created.weaken fun _ _ => trivial
      exact ⟨_, known target rfl, equal⟩

theorem LogTrue.aside {own : Text} {w last : World ρ} (truth : LogTrue env view path log w)
    (aside : Aside view own w last) : LogTrue env view path log last := by
  obtain ⟨events, equal, none⟩ := aside.log
  exact truth.silent _ equal fun record remote inside => absurd inside (none record remote)

theorem attemptLink_beside (frame : EngineFrame env.engine view) (other : path ≠ link.remotePath)
    {E : ClientError → PushState ρ → Prop} :
    Triple (Beside env view path log base) (Proc.attempt (onWorld (pushOneSymlink env mode link)))
      (fun _ => Beside env view path log base) E := by
  have kept : ∀ s w, Beside env view path log base s → Aside view link.remotePath s.world w →
      Beside env view path log base (s.withWorld w) := fun s w beside aside =>
    beside.onWorld (beside.log.aside aside) (aside.other path other) (by rw [aside.store])
  exact Triple.attempt (onWorld_triple fun s beside => (pushOneSymlink_aside frame).conseq
    (fun _ => id) (fun _ w aside => kept s w beside aside) fun _ w aside => kept s w beside aside)

/-- The symlinks of other paths leave the path alone. -/
theorem pushSymlinks_beside (frame : EngineFrame env.engine view) {links : List PendingSymlink}
    (other : ∀ link ∈ links, link.remotePath ≠ path) :
    Triple (Beside env view path log base) (pushSymlinks env ctx links)
      (fun updates s => Beside env view path log base s ∧ Quiet path updates)
      (fun _ s => LogTrue env view path log s.world) := by
  induction links with
  | nil => exact Triple.ret fun _ beside => ⟨beside, fun _ inside => (List.not_mem_nil inside).elim⟩
  | cons link rest ih =>
      have here := other link (List.mem_cons_self ..)
      have later := ih fun one inside => other one (List.mem_cons_of_mem _ inside)
      refine Triple.bind (attemptLink_beside frame (Ne.symm here)) fun outcome => ?_
      refine Triple.bind (Q := fun _ => Beside env view path log base)
        (Triple.modify fun _ beside => beside.mirrored rfl id rfl rfl) fun _ => ?_
      cases outcome with
      | error error =>
          refine Triple.bind (Q := fun _ => Beside env view path log base) (Triple.modify fun _ beside => ?_)
            fun _ => later
          exact beside.mirrored rfl (fun _ => PushState.errors_failed _ _) rfl rfl
      | ok pushed =>
          refine Triple.bind (Q := fun _ => Beside env view path log base) (onWorld_triple fun s beside =>
            (now_unmoved.weaken fun _ => Unmoved.of_eq).strengthen fun _ _ unmoved => beside.still unmoved)
            fun time => ?_
          have mirror : ∀ (s : PushState ρ), (s.metadataByPath.set (syncedSymlinkMeta link time)).find path =
              s.metadataByPath.find path := by
            intro s
            rw [Records.find_set]
            exact if_neg (Ne.symm here)
          refine Triple.bind (Q := fun _ => Beside env view path log base) (Triple.modify fun s beside => ?_)
            fun _ => ?_
          · split <;> exact beside.mirrored rfl id rfl (mirror s)
          · refine Triple.bind later fun others => Triple.ret fun s holds => ⟨holds.1, fun record inside => ?_⟩
            rcases List.mem_cons.mp inside with rfl | among
            · exact here
            · exact holds.2 record among

/-- The one symlink of the path is on the remote with a record in hand, or there is an error. -/
def LinkDone (env : Env ρ) (view : ρ → Text → Option RemoteEntry) (link : PendingSymlink)
    (updates : List FileSyncMeta) (s : PushState ρ) : Prop :=
  (Holds env.digest (view s.world.remote) link.remotePath link.contentHash ∧
      (∃ record ∈ updates, record.path = link.remotePath) ∧ ∀ record ∈ updates,
        record.path = link.remotePath → ∃ time, record = syncedSymlinkMeta link time) ∨
    (s.errors ≠ [] ∧ Quiet link.remotePath updates)

theorem LinkDone.beside {updates : List FileSyncMeta} {middle : PushState ρ}
    (done : LinkDone env view link updates middle)
    (beside : Beside env view link.remotePath log middle s) : LinkDone env view link updates s := by
  rcases done with ⟨holds, recorded⟩ | ⟨failed, quiet⟩
  · exact Or.inl ⟨holds.congr beside.there, recorded⟩
  · exact Or.inr ⟨beside.errors failed, quiet⟩

theorem Later.beside {middle : PushState ρ} (later : Later env view path log base middle)
    (beside : Beside env view path log middle s) : Later env view path log base s :=
  ⟨beside.log, fun failed => beside.errors (later.errors failed), beside.seen.trans later.seen⟩

/-- The attempt of the path's own symlink. -/
theorem attemptLink_own (spec : EngineSpec env.digest hashPrefix env.engine view)
    (identity : link.contentHash = symlinkIdentityHash env.digest link.remotePath link.target)
    {E : ClientError → PushState ρ → Prop} :
    Triple (Later env view link.remotePath log base) (Proc.attempt (onWorld (pushOneSymlink env mode link)))
      (fun outcome s => Later env view link.remotePath log base s ∧ ∀ pushed, outcome = .ok pushed →
        Holds env.digest (view s.world.remote) link.remotePath link.contentHash) E := by
  refine Triple.attempt (onWorld_triple fun s later => ?_)
  have aside : Triple (· = s.world) (pushOneSymlink env mode link)
      (fun _ => Aside view link.remotePath s.world) (fun _ => Aside view link.remotePath s.world) :=
    pushOneSymlink_aside spec.toEngineFrame
  refine (aside.both ((pushOneSymlink_holds spec identity).weaken fun _ _ => trivial)).conseq (fun _ => id) (fun pushed w holds => ?_) fun e w holds => ?_
  · exact ⟨later.onWorld (later.log.aside holds.1), fun _ _ => holds.2⟩
  · exact ⟨later.onWorld (later.log.aside holds.1), fun _ impossible => by cases impossible⟩

theorem pushSymlinks_own (spec : EngineSpec env.digest hashPrefix env.engine view)
    {links : List PendingSymlink} (inside : link ∈ links)
    (single : (links.map PendingSymlink.remotePath).count link.remotePath ≤ 1)
    (identity : link.contentHash = symlinkIdentityHash env.digest link.remotePath link.target) :
    Triple (Later env view link.remotePath log base) (pushSymlinks env ctx links)
      (fun updates s => Later env view link.remotePath log base s ∧ LinkDone env view link updates s)
      (fun _ s => LogTrue env view link.remotePath log s.world) := by
  induction links generalizing base with
  | nil => cases inside
  | cons first rest ih =>
      by_cases own : first.remotePath = link.remotePath
      · have absent : ∀ other ∈ rest, other.remotePath ≠ link.remotePath := by
          refine forall_ne_of_count (f := PendingSymlink.remotePath) ?_
          simp only [List.map_cons, List.count_cons, own, beq_self_eq_true, if_true] at single
          omega
        have here : first = link := by
          rcases List.mem_cons.mp inside with rfl | later
          · rfl
          · exact absurd rfl (absent link later)
        subst first
        refine Triple.bind (attemptLink_own spec identity) fun outcome => ?_
        refine Triple.bind (Q := fun _ s => Later env view link.remotePath log base s ∧
          ∀ pushed, outcome = .ok pushed →
            Holds env.digest (view s.world.remote) link.remotePath link.contentHash)
          (Triple.modify fun s holds => ⟨⟨holds.1.log, holds.1.errors, holds.1.seen⟩, holds.2⟩) fun _ => ?_
        cases outcome with
        | error error =>
            refine Triple.bind (Q := fun _ s => Later env view link.remotePath log base s ∧ s.errors ≠ [])
              (Triple.modify fun s holds => ?_) fun _ => ?_
            · exact ⟨⟨holds.1.log, fun _ => PushState.errors_failed _ _, holds.1.seen⟩,
                PushState.errors_failed _ _⟩
            · refine Triple.fix fun middle holds => ?_
              refine (pushSymlinks_beside spec.toEngineFrame absent).conseq
                (P := Beside env view link.remotePath log middle)
                (fun s equal => by rw [equal]; exact Beside.refl holds.1.log) (fun updates s after => ?_) fun _ _ => id
              exact ⟨holds.1.beside after.1, Or.inr ⟨after.1.errors holds.2, after.2⟩⟩
        | ok pushed =>
            refine Triple.bind (Q := fun time s => Later env view link.remotePath log base s ∧
              Holds env.digest (view s.world.remote) link.remotePath link.contentHash)
              (onWorld_triple fun s holds => (now_unmoved.weaken fun _ => Unmoved.of_eq).strengthen
                fun _ w unmoved => ?_) fun time => ?_
            · refine ⟨holds.1.onWorld (holds.1.log.congr unmoved.log), ?_⟩
              rw [PushState.withWorld, unmoved.remote]
              exact holds.2 pushed rfl
            refine Triple.bind (Q := fun _ s => Later env view link.remotePath log base s ∧
              Holds env.digest (view s.world.remote) link.remotePath link.contentHash)
              (Triple.modify fun s holds => ?_) fun _ => Triple.fix fun middle holds => ?_
            · split <;> exact ⟨⟨holds.1.log, holds.1.errors, holds.1.seen⟩, holds.2⟩
            · refine Triple.bind ((pushSymlinks_beside spec.toEngineFrame absent).weaken
                (P := Beside env view link.remotePath log middle) fun s equal => by rw [equal]; exact Beside.refl holds.1.log) fun others => ?_
              refine Triple.ret fun s after => ⟨holds.1.beside after.1, Or.inl ⟨holds.2.congr after.1.there,
                ⟨_, List.mem_cons_self .., rfl⟩, fun record among path => ?_⟩⟩
              rcases List.mem_cons.mp among with rfl | listed
              · exact ⟨time, rfl⟩
              · exact absurd path (after.2 record listed)
      · have later : link ∈ rest := by
          rcases List.mem_cons.mp inside with rfl | later
          · exact absurd rfl own
          · exact later
        have fewer : (rest.map PendingSymlink.remotePath).count link.remotePath ≤ 1 := by
          simp only [List.map_cons, List.count_cons] at single
          omega
        have tail : Triple (Later env view link.remotePath log base) (pushSymlinks env ctx rest) _ _ :=
          ih later fewer
        refine Triple.bind (Q := fun _ => Later env view link.remotePath log base) (Triple.fix fun middle known =>
          ((attemptLink_beside spec.toEngineFrame (Ne.symm own)).weaken
            (P := Beside env view link.remotePath log middle) fun s equal => by rw [equal]; exact Beside.refl known.log).strengthen
              fun _ s beside => known.beside beside) fun outcome => ?_
        refine Triple.bind (Q := fun _ => Later env view link.remotePath log base)
          (Triple.modify fun s known => ⟨known.log, known.errors, known.seen⟩) fun _ => ?_
        cases outcome with
        | error error =>
            refine Triple.bind (Q := fun _ => Later env view link.remotePath log base)
              (Triple.modify fun s known => ?_) fun _ => tail
            exact ⟨known.log, fun _ => PushState.errors_failed _ _, known.seen⟩
        | ok pushed =>
            refine Triple.bind (Q := fun _ => Later env view link.remotePath log base)
              (onWorld_triple fun s known => (now_unmoved.weaken fun _ => Unmoved.of_eq).strengthen
                fun _ w unmoved => known.onWorld (known.log.congr unmoved.log)) fun time => ?_
            refine Triple.bind (Q := fun _ => Later env view link.remotePath log base)
              (Triple.modify fun s known => ?_) fun _ => ?_
            · split <;> exact ⟨known.log, known.errors, known.seen⟩
            · refine Triple.bind tail fun others => Triple.ret fun s after => ⟨after.1, ?_⟩
              rcases after.2 with ⟨holds, ⟨record, among, path⟩, all⟩ | ⟨failed, quiet⟩
              · refine Or.inl ⟨holds, ⟨record, List.mem_cons_of_mem _ among, path⟩, fun one listed same => ?_⟩
                rcases List.mem_cons.mp listed with rfl | here
                · exact absurd same own
                · exact all one here same
              · refine Or.inr ⟨failed, fun one listed => ?_⟩
                rcases List.mem_cons.mp listed with rfl | here
                · exact own
                · exact quiet one here

end Links

theorem setFileMetasBatch_beside {metas : List FileSyncMeta} (quiet : Quiet path metas) :
    Triple (Beside env view path log base) (onWorld (setFileMetasBatch env metas))
      (fun _ => Beside env view path log base) (fun _ s => LogTrue env view path log s.world) := by
  refine onWorld_triple fun s beside => setFileMetasBatch_triple (fun _ w equal => ?_) (fun w equal => ?_)
    fun w e equal => ?_
  · subst equal
    exact beside
  · subst equal
    refine beside.onWorld (beside.log.silent _ rfl fun record remote inside => ?_) rfl
      (Records.find_setAll_other quiet)
    obtain ⟨other, listed, same⟩ := List.mem_map.mp inside
    exact (Event.recorded.inj same).1 ▸ quiet other listed
  · subst equal
    exact beside.log.congr rfl

theorem quiet_coalesce {updates : List FileSyncMeta} (quiet : Quiet path updates) :
    Quiet path (coalesceFileMetas updates) :=
  fun record inside => quiet record (mem_coalesceFileMetas inside)

theorem pushPendingSymlinks_beside (frame : EngineFrame env.engine view)
    (other : ∀ link ∈ base.pendingSymlinks, link.remotePath ≠ path) :
    Triple (fun s => Beside env view path log base s ∧ s.pendingSymlinks = base.pendingSymlinks)
      (pushPendingSymlinks env ctx) (fun _ => Beside env view path log base)
      (fun _ s => LogTrue env view path log s.world) := by
  refine Triple.bind (Q := fun u s => Beside env view path log base s ∧
    u.pendingSymlinks = base.pendingSymlinks) (Triple.get fun _ => id) fun u => ?_
  refine Triple.assume (fun _ holds => holds.2) fun listed => ?_
  refine Triple.bind (Q := fun links s => Beside env view path log base s ∧ links.Perm u.pendingSymlinks)
    (onWorld_triple fun s holds => (arrange_unmoved.weaken fun _ => Unmoved.of_eq).strengthen
      fun _ _ arranged => ⟨holds.1.still arranged.1, arranged.2⟩) fun links => ?_
  refine Triple.assume (fun _ holds => holds.2) fun perm => ?_
  refine Triple.bind ((pushSymlinks_beside frame fun link inside => other link ?_).weaken
    fun _ holds => holds.1) fun updates => ?_
  · rw [← listed]
    exact perm.mem_iff.mp inside
  · refine Triple.assume (fun _ holds => holds.2) fun quiet => ?_
    exact (setFileMetasBatch_beside (quiet_coalesce quiet)).weaken fun _ holds => holds.1

/-- The symlink is on the remote and in the store. -/
def LinkRecorded (env : Env ρ) (view : ρ → Text → Option RemoteEntry) (link : PendingSymlink)
    (s : PushState ρ) : Prop :=
  s.errors ≠ [] ∨ Holds env.digest (view s.world.remote) link.remotePath link.contentHash ∧
    ∃ time, s.world.store.files.find link.remotePath = some (syncedSymlinkMeta link time)

theorem pushPendingSymlinks_own (spec : EngineSpec env.digest hashPrefix env.engine view)
    {link : PendingSymlink} (inside : link ∈ base.pendingSymlinks)
    (single : (base.pendingSymlinks.map PendingSymlink.remotePath).count link.remotePath ≤ 1)
    (identity : link.contentHash = symlinkIdentityHash env.digest link.remotePath link.target) :
    Triple (fun s => Later env view link.remotePath log base s ∧ s.pendingSymlinks = base.pendingSymlinks)
      (pushPendingSymlinks env ctx)
      (fun _ s => Later env view link.remotePath log base s ∧ LinkRecorded env view link s)
      (fun _ s => LogTrue env view link.remotePath log s.world) := by
  refine Triple.bind (Q := fun u s => Later env view link.remotePath log base s ∧
    u.pendingSymlinks = base.pendingSymlinks) (Triple.get fun _ => id) fun u => ?_
  refine Triple.assume (fun _ holds => holds.2) fun listed => ?_
  refine Triple.bind (Q := fun links s => Later env view link.remotePath log base s ∧
    links.Perm u.pendingSymlinks) (onWorld_triple fun s holds => (arrange_unmoved.weaken
      fun _ => Unmoved.of_eq).strengthen fun _ w arranged => ?_) fun links => ?_
  · exact ⟨holds.1.onWorld (holds.1.log.congr arranged.1.log), arranged.2⟩
  refine Triple.assume (fun _ holds => holds.2) fun perm => ?_
  rw [listed] at perm
  refine Triple.bind ((pushSymlinks_own spec (perm.mem_iff.mpr inside) ?_ identity).weaken
    fun _ holds => holds.1) fun updates => ?_
  · rwa [(perm.map PendingSymlink.remotePath).count_eq]
  refine onWorld_triple fun s holds => setFileMetasBatch_triple (fun nothing w equal => ?_) (fun w equal => ?_)
    fun w e equal => ?_
  · subst equal
    refine ⟨holds.1, ?_⟩
    rcases holds.2 with ⟨-, ⟨record, among, -⟩, -⟩ | ⟨failed, -⟩
    · obtain ⟨other, here, -⟩ := coalesceFileMetas_covers among
      rw [nothing] at here
      cases here
    · exact Or.inl failed
  · subst equal
    rcases holds.2 with ⟨held, ⟨record, among, path⟩, all⟩ | ⟨failed, quiet⟩
    · refine ⟨holds.1.onWorld (holds.1.log.append _ rfl fun _ _ one remote recorded own _ => Or.inl ?_), Or.inr ⟨held, ?_⟩⟩
      · obtain ⟨other, here, same⟩ := List.mem_map.mp recorded
        obtain ⟨rfl, rfl⟩ := Event.recorded.inj same
        obtain ⟨time, rfl⟩ := all other (mem_coalesceFileMetas here) own
        exact held
      · obtain ⟨other, here, same⟩ := coalesceFileMetas_covers among
        obtain ⟨last, listed, own, found⟩ := Records.find_setAll_covered s.world.store.files
          ⟨other, here, same.trans path⟩
        obtain ⟨time, rfl⟩ := all last (mem_coalesceFileMetas listed) own
        exact ⟨time, found⟩
    · refine ⟨holds.1.onWorld (holds.1.log.silent _ rfl fun one remote recorded => ?_), Or.inl failed⟩
      obtain ⟨other, here, same⟩ := List.mem_map.mp recorded
      obtain ⟨rfl, -⟩ := Event.recorded.inj same
      exact quiet other (mem_coalesceFileMetas here)
  · subst equal
    exact holds.1.log.congr rfl

section Deletes

/-- The path is gone from the remote and from the store, or there is an error. -/
def Gone (view : ρ → Text → Option RemoteEntry) (path : Text) (s : PushState ρ) : Prop :=
  s.errors ≠ [] ∨ view s.world.remote path = none ∧ s.world.store.files.find path = none

theorem Gone.beside {middle : PushState ρ} (gone : Gone view path middle)
    (beside : Beside env view path log middle s) : Gone view path s := by
  rcases gone with failed | ⟨there, stored⟩
  · exact Or.inl (beside.errors failed)
  · exact Or.inr ⟨beside.there.trans there, beside.stored.trans stored⟩

theorem note_silent {event : Event ρ} {w : World ρ} (truth : LogTrue env view path log w)
    (silent : ∀ record remote, .recorded record remote ≠ event) :
    LogTrue env view path log { w with log := event :: w.log } :=
  truth.silent [event] rfl fun record remote inside =>
    absurd (List.mem_singleton.mp inside) (silent record remote)

theorem deleteFileMeta_beside {other : Text} (apart : other ≠ path) :
    Triple (Beside env view path log base) (onWorld (deleteFileMeta env other))
      (fun _ => Beside env view path log base) (fun _ s => LogTrue env view path log s.world) := by
  refine onWorld_triple fun s beside => writeStore_triple (fun w equal => ?_) fun w e equal => ?_
  · subst equal
    refine beside.onWorld (logTrue_forgotten _ beside.log _) rfl ?_
    simp only [Records.find_remove, Ne.symm apart, if_false]
  · subst equal
    exact beside.log.congr rfl

theorem deleteRemote_beside (frame : EngineFrame env.engine view) {other : Text} (apart : other ≠ path) :
    Triple (Beside env view path log base) (deleteRemote env other)
      (fun _ => Beside env view path log base) (fun _ s => LogTrue env view path log s.world) := by
  refine Triple.bind (Q := fun _ => Beside env view path log base) (onWorld_triple fun s beside =>
    note_triple fun w equal => ?_) fun _ => ?_
  · subst equal
    exact beside.onWorld (note_silent beside.log fun _ _ equal => by cases equal) rfl rfl
  refine Triple.bind (Q := fun _ => Beside env view path log base) (Triple.attempt (onWorld_triple
    fun s beside => callRemote_triple (fun w _ equal _ => ?_) fun w _ equal _ => ?_)) fun outcome => ?_
  · subst equal
    exact beside.onWorld (beside.log.congr rfl) (frame.deleteFile_other _ _ _ (Ne.symm apart)) rfl
  · subst equal
    exact beside.onWorld (beside.log.congr rfl) (frame.deleteFile_other _ _ _ (Ne.symm apart)) rfl
  cases outcome with
  | error error =>
      exact Triple.modify fun s beside => beside.mirrored rfl (fun _ => PushState.errors_failed _ _) rfl rfl
  | ok _ =>
      exact Triple.bind (deleteFileMeta_beside apart) fun _ =>
        Triple.modify fun s beside => beside.mirrored rfl id rfl rfl

theorem deleteRemote_own (spec : EngineSpec env.digest hashPrefix env.engine view) :
    Triple (Later env view path log base) (deleteRemote env path)
      (fun _ s => Later env view path log base s ∧ Gone view path s)
      (fun _ s => LogTrue env view path log s.world) := by
  refine Triple.bind (Q := fun _ => Later env view path log base) (onWorld_triple fun s later =>
    note_triple fun w equal => ?_) fun _ => ?_
  · subst equal
    exact later.onWorld (note_silent later.log fun _ _ equal => by cases equal)
  refine Triple.bind (Q := fun outcome s => Later env view path log base s ∧
    (outcome = .ok () → view s.world.remote path = none)) (Triple.attempt (onWorld_triple
      fun s later => callRemote_triple (fun w _ equal answer => ?_) fun w _ equal _ => ?_)) fun outcome => ?_
  · subst equal
    exact ⟨later.onWorld (later.log.congr rfl), fun _ => spec.deleteFile_ok _ _ answer⟩
  · subst equal
    exact ⟨later.onWorld (later.log.congr rfl), fun impossible => by cases impossible⟩
  cases outcome with
  | error error =>
      refine Triple.modify fun s holds => ⟨⟨holds.1.log, fun _ => PushState.errors_failed _ _, holds.1.seen⟩, ?_⟩
      exact Or.inl (PushState.errors_failed _ _)
  | ok _ =>
      refine Triple.bind (Q := fun _ s => Later env view path log base s ∧
        view s.world.remote path = none ∧ s.world.store.files.find path = none) (onWorld_triple
          fun s holds => writeStore_triple (fun w equal => ?_) fun w e equal => ?_) fun _ => ?_
      · subst equal
        refine ⟨holds.1.onWorld (logTrue_forgotten _ holds.1.log _), holds.2 rfl, ?_⟩
        simp only [PushState.withWorld, Records.find_remove, if_true]
      · subst equal
        exact holds.1.log.congr rfl
      · exact Triple.modify fun s holds => ⟨⟨holds.1.log, holds.1.errors, holds.1.seen⟩, Or.inr holds.2⟩

/-- Deletions concern exactly the recorded paths that count as deleted. -/
theorem propagateDeletes_path (spec : EngineSpec env.digest hashPrefix env.engine view) :
    Triple (Beside env view path log base) (propagateDeletes env ctx)
      (fun _ s => (Beside env view path log base s ∧ ¬ (base.metadataByPath.find path ≠ none ∧
          isDeletedLocally ctx base.seenRemotePaths path = true)) ∨
        (Later env view path log base s ∧ isDeletedLocally ctx base.seenRemotePaths path = true ∧
          Gone view path s))
      (fun _ s => LogTrue env view path log s.world) := by
  refine Triple.bind (Q := fun u s => Beside env view path log base s ∧
    u.seenRemotePaths = base.seenRemotePaths ∧ u.metadataByPath.find path = base.metadataByPath.find path)
    (Triple.get fun s beside => ⟨beside, beside.seen, beside.mirror⟩) fun u => ?_
  refine Triple.assume (fun _ holds => holds.2) fun known => ?_
  refine Triple.bind (Q := fun recorded s => Beside env view path log base s ∧
    recorded.Perm u.metadataByPath.paths) (onWorld_triple fun s holds => (arrange_unmoved.weaken
      fun _ => Unmoved.of_eq).strengthen fun _ _ arranged => ⟨holds.1.still arranged.1, arranged.2⟩)
    fun recorded => ?_
  refine Triple.assume (fun _ holds => holds.2) fun perm => ?_
  let loop : List Text → PushState ρ → Prop := fun rest s =>
    (Beside env view path log base s ∧ (path ∈ recorded → isDeletedLocally ctx base.seenRemotePaths path = true →
      path ∈ rest)) ∨
    (Later env view path log base s ∧ isDeletedLocally ctx base.seenRemotePaths path = true ∧ Gone view path s)
  have run : Triple (loop recorded) (Proc.forEach recorded fun path =>
      Proc.when (isDeletedLocally ctx u.seenRemotePaths path) (deleteRemote env path))
      (fun _ => loop []) (fun _ s => LogTrue env view path log s.world) := by
    rw [known.1]
    refine Triple.forEach loop recorded fun other rest _ => Triple.when (fun deleted => ?_) fun kept s before => ?_
    · refine Triple.fix fun s before => ?_
      by_cases own : other = path
      · subst other
        refine (deleteRemote_own spec).conseq (P := Later env view path log base) (fun s' equal => ?_)
          (fun _ s' holds => Or.inr ⟨holds.1, deleted, holds.2⟩) fun _ _ => id
        rcases before with ⟨beside, -⟩ | ⟨later, -⟩
        · exact equal ▸ beside.toLater
        · exact equal ▸ later
      · have truth : LogTrue env view path log s.world := by
          rcases before with ⟨beside, -⟩ | ⟨later, -⟩
          · exact beside.log
          · exact later.log
        refine (deleteRemote_beside spec.toEngineFrame own).conseq (P := Beside env view path log s)
          (fun s' equal => by rw [equal]; exact Beside.refl truth) (fun _ s' after => ?_) fun _ _ => id
        rcases before with ⟨beside, waits⟩ | ⟨later, counts, gone⟩
        · refine Or.inl ⟨⟨beside.toLater.beside after, after.there.trans beside.there,
            after.stored.trans beside.stored, after.mirror.trans beside.mirror⟩, fun inside counts => ?_⟩
          rcases List.mem_cons.mp (waits inside counts) with equal | later
          · exact absurd equal.symm own
          · exact later
        · exact Or.inr ⟨later.beside after, counts, gone.beside after⟩
    · rcases before with ⟨beside, waits⟩ | settled
      · refine Or.inl ⟨beside, fun inside counts => ?_⟩
        rcases List.mem_cons.mp (waits inside counts) with rfl | later
        · exact absurd counts kept
        · exact later
      · exact Or.inr settled
  refine run.conseq (fun s holds => Or.inl ⟨holds.1, fun inside _ => inside⟩) (fun _ s after => ?_) fun _ _ => id
  rcases after with ⟨beside, none⟩ | settled
  · refine Or.inl ⟨beside, fun ⟨present, counts⟩ => ?_⟩
    rw [← known.2] at present
    have inside : path ∈ recorded := perm.mem_iff.mpr (Records.mem_paths.mpr (Option.ne_none_iff_exists'.mp present))
    cases none inside counts
  · exact Or.inr settled

end Deletes

/-- Cleaning up after a migration only forgets paths that were not seen. -/
theorem cleanupMigration_path :
    Triple (Beside env view path log base) (cleanupMigration env ctx)
      (fun _ s => Beside env view path log base s ∨ (Later env view path log base s ∧
        path ∉ base.seenRemotePaths ∧ ctx.migration ≠ none ∧ s.world.store.files.find path = none))
      (fun _ s => LogTrue env view path log s.world) := by
  refine Triple.bind (Q := fun _ => Beside env view path log base) (Triple.get fun _ => id) fun u => ?_
  cases pending : ctx.migration with
  | none => exact Triple.ret fun _ beside => Or.inl beside
  | some migration =>
      refine Triple.when (fun _ => ?_) fun _ _ beside => Or.inl beside
      refine Triple.bind (Q := fun u s => Beside env view path log base s ∧
        u.seenRemotePaths = base.seenRemotePaths) (Triple.get fun s beside => ⟨beside, beside.seen⟩) fun u => ?_
      refine Triple.assume (fun _ holds => holds.2) fun seen => ?_
      refine Triple.bind (Q := fun stale s => Beside env view path log base s ∧
        (path ∈ stale → path ∉ base.seenRemotePaths)) (onWorld_triple fun s holds => (arrange_unmoved.weaken
          fun _ => Unmoved.of_eq).strengthen fun _ _ arranged => ?_) fun stale => ?_
      · refine ⟨holds.1.still arranged.1, fun inside => ?_⟩
        have listed := List.mem_filter.mp (arranged.2.mem_iff.mp inside)
        rw [← seen]
        exact (of_decide_eq_true listed.2).2
      refine Triple.assume (fun _ holds => holds.2) fun unseen => ?_
      let loop : PushState ρ → Prop := fun s => Beside env view path log base s ∨
        (Later env view path log base s ∧ path ∈ stale ∧ s.world.store.files.find path = none)
      have run : Triple loop (Proc.forEach stale (dropStaleRecord env)) (fun _ => loop)
          (fun _ s => LogTrue env view path log s.world) := by
        refine Triple.forEach_keep loop stale fun other inside => ?_
        refine Triple.bind (Q := fun _ s => loop s ∧ (other = path → s.world.store.files.find path = none))
          (onWorld_triple fun s before => writeStore_triple (fun w equal => ?_) fun w e equal => ?_) fun _ =>
            Triple.modify fun s holds => ?_
        · subst equal
          by_cases own : other = path
          · subst other
            have gone : (s.world.store.files.remove path).find path = none := by
              rw [Records.find_remove]
              exact if_pos rfl
            refine ⟨Or.inr ⟨?_, inside, gone⟩, fun _ => gone⟩
            rcases before with beside | ⟨later, -⟩
            · exact beside.toLater.onWorld (logTrue_forgotten _ beside.log _)
            · exact later.onWorld (logTrue_forgotten _ later.log _)
          · refine ⟨?_, fun equal => absurd equal own⟩
            have kept : (s.world.store.files.remove other).find path = s.world.store.files.find path := by
              rw [Records.find_remove]
              exact if_neg (Ne.symm own)
            rcases before with beside | ⟨later, listed, gone⟩
            · exact Or.inl (beside.onWorld (logTrue_forgotten _ beside.log _) rfl kept)
            · exact Or.inr ⟨later.onWorld (logTrue_forgotten _ later.log _), listed, kept.trans gone⟩
        · subst equal
          rcases before with beside | ⟨later, -⟩
          · exact beside.log.congr rfl
          · exact later.log.congr rfl
        · by_cases own : other = path
          · subst other
            refine Or.inr ⟨?_, inside, holds.2 rfl⟩
            rcases holds.1 with beside | ⟨later, -⟩
            · exact ⟨beside.log, beside.errors, beside.seen⟩
            · exact ⟨later.log, later.errors, later.seen⟩
          · rcases holds.1 with beside | ⟨later, listed, gone⟩
            · refine Or.inl (beside.mirrored rfl id rfl ?_)
              simp only [PushState.forgot, Records.find_remove, Ne.symm own, if_false]
            · exact Or.inr ⟨⟨later.log, later.errors, later.seen⟩, listed, gone⟩
      refine run.conseq (fun s holds => Or.inl holds.1) (fun _ s after => ?_) fun _ _ => id
      rcases after with beside | ⟨later, listed, gone⟩
      · exact Or.inl beside
      · exact Or.inr ⟨later, unseen listed, Option.some_ne_none _, gone⟩

theorem finishMigration_beside :
    Triple (Beside env view path log base) (finishMigration env ctx) (fun _ => Beside env view path log base)
      (fun _ s => LogTrue env view path log s.world) := by
  refine Triple.bind (Q := fun _ => Beside env view path log base) (Triple.get fun _ => id) fun u => ?_
  refine Triple.when (fun _ => ?_) fun _ _ beside => beside
  refine onWorld_triple fun s beside => writeStore_triple (fun w equal => ?_) fun w e equal => ?_
  · subst equal
    exact beside.onWorld (beside.log.congr rfl) rfl rfl
  · subst equal
    exact beside.log.congr rfl

/-- The part of a push that follows the symlinks. -/
def pushTail (env : Env ρ) (ctx : PushContext) : PushProgram ρ Unit := do
  cleanupMigration env ctx
  Proc.when ctx.relationship.deletePropagation.localToRemote (propagateDeletes env ctx)
  finishMigration env ctx

/-- The path was left alone, deleted on both sides, or forgotten by the migration. -/
inductive TailOutcome (env : Env ρ) (view : ρ → Text → Option RemoteEntry) (path : Text)
    (log : List (Event ρ)) (ctx : PushContext) (base s : PushState ρ) : Prop
  | kept (beside : Beside env view path log base s)
      (spared : ¬ (ctx.relationship.deletePropagation.localToRemote = true ∧
        base.metadataByPath.find path ≠ none ∧ isDeletedLocally ctx base.seenRemotePaths path = true))
  | deleted (later : Later env view path log base s)
      (counts : isDeletedLocally ctx base.seenRemotePaths path = true) (gone : Gone view path s)
  | forgotten (later : Later env view path log base s) (unseen : path ∉ base.seenRemotePaths)
      (migrates : ctx.migration ≠ none)
      (gone : s.errors ≠ [] ∨ s.world.store.files.find path = none)

/-- A path that was seen is left alone. -/
theorem TailOutcome.beside {path : Text} {base last : PushState ρ}
    (outcome : TailOutcome env view path log ctx base last) (seen : path ∈ base.seenRemotePaths) :
    Beside env view path log base last := by
  cases outcome with
  | kept beside => exact beside
  | deleted later counts => simp [isDeletedLocally, seen] at counts
  | forgotten later unseen => exact absurd seen unseen

theorem pushTail_path (spec : EngineSpec env.digest hashPrefix env.engine view) :
    Triple (Beside env view path log base) (pushTail env ctx)
      (fun _ s => TailOutcome env view path log ctx base s)
      (fun _ s => LogTrue env view path log s.world) := by
  have finish : Triple (TailOutcome env view path log ctx base) (finishMigration env ctx)
      (fun _ => TailOutcome env view path log ctx base) (fun _ s => LogTrue env view path log s.world) := by
    refine Triple.fix fun s before => ?_
    have truth : LogTrue env view path log s.world := by
      cases before with
      | kept beside => exact beside.log
      | deleted later => exact later.log
      | forgotten later => exact later.log
    refine finishMigration_beside.conseq (P := Beside env view path log s)
      (fun s' equal => by rw [equal]; exact Beside.refl truth) (fun _ s' after => ?_) fun _ _ => id
    cases before with
    | kept beside spared =>
        exact .kept ⟨beside.toLater.beside after, after.there.trans beside.there,
          after.stored.trans beside.stored, after.mirror.trans beside.mirror⟩ spared
    | deleted later counts gone => exact .deleted (later.beside after) counts (gone.beside after)
    | forgotten later unseen migrates gone =>
        refine .forgotten (later.beside after) unseen migrates ?_
        exact gone.imp after.errors fun gone => after.stored.trans gone
  refine Triple.bind cleanupMigration_path fun _ => Triple.bind (Q := fun _ =>
    TailOutcome env view path log ctx base) (Triple.fix fun s before => ?_) fun _ => finish
  rcases before with beside | ⟨later, unseen, migrates, gone⟩
  · refine Triple.when (fun _ => ?_) fun disabled s' equal => ?_
    · refine (propagateDeletes_path spec).conseq (fun s' equal => by rw [equal]; exact beside)
        (fun _ s' after => ?_) fun _ _ => id
      rcases after with ⟨beside, none⟩ | ⟨later, counts, gone⟩
      · exact .kept beside fun ⟨_, rest⟩ => none rest
      · exact .deleted later counts gone
    · exact .kept (equal ▸ beside) fun ⟨enabled, _⟩ => disabled enabled
  · refine Triple.when (fun _ => ?_) fun _ s' equal => ?_
    · refine (propagateDeletes_path spec).conseq (P := Beside env view path log s)
        (fun s' equal => by rw [equal]; exact Beside.refl later.log) (fun _ s' after => ?_) fun _ _ => id
      rcases after with ⟨beside, -⟩ | ⟨further, -, none⟩
      · exact .forgotten (later.beside beside) unseen migrates (Or.inr (beside.stored.trans gone))
      · refine .forgotten ⟨further.log, fun failed => further.errors (later.errors failed),
          further.seen.trans later.seen⟩ unseen migrates (none.imp_right And.right)
    · exact .forgotten (equal ▸ later) unseen migrates (Or.inr (equal ▸ gone))

end AeordbSync

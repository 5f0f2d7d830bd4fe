import Mathlib.Data.List.Perm.Basic
import AeordbSync.Push.FocusRun
import AeordbSync.Reference

namespace AeordbSync
open Characters OsPath FileSystem Effect

/-- Where an entry of the walk ends up in the counts of a push. -/
inductive EntryOutcome where
  | pushed
  | skipped
  | failed (message : Text)
  | passedOver
  deriving DecidableEq

structure Posting where
  entry : PathBuf
  outcome : EntryOutcome

def EntryOutcome.message : EntryOutcome → Option Text
  | .failed message => some message
  | _ => none

def failedToDelete (path : Text) (error : ClientError) : Text :=
  text "failed to delete remote " ++ path ++ text ": " ++ error.display

/-- An entry counts if it is a symlink, or a regular file whose name is UTF-8. -/
def Counts (entry : PathBuf) : Node → Prop
  | .symlink _ _ => True
  | .file _ _ => ((fileName entry).bind toStr?).isSome = true
  | _ => False

variable {ρ : Type} (env : Env ρ) (ctx : PushContext) (disk : Tree)

def CountsOn (entry : PathBuf) : Prop := ∃ node, disk.metadata false entry = .ok node ∧ Counts entry node

/-- A message shows the local or the remote path of its entry. -/
def NamesEntry (entry : PathBuf) (message : Text) : Prop :=
  env.debugPath entry <:+: message ∨ ctx.entryRemotePath entry <:+: message

/-- An entry is passed over if its metadata show that it does not count. What could not be looked at has failed. -/
def Posting.Justified (posting : Posting) : Prop :=
  match posting.outcome with
  | .passedOver => ∃ node, disk.metadata false posting.entry = .ok node ∧ ¬ Counts posting.entry node
  | .failed message => NamesEntry env ctx posting.entry message ∧
      (CountsOn disk posting.entry ∨
        ∃ error, message = failedOn env "failed to read metadata for " posting.entry error)
  | _ => CountsOn disk posting.entry

/-- The counters and the errors of a run are those of its postings and of the deletions that were refused. -/
structure Booked (ledger : List Posting) (refused : List (Text × ClientError)) (s : PushState ρ) : Prop where
  justified : ∀ posting ∈ ledger, posting.Justified env ctx disk
  pushed : s.filesPushed = ledger.countP (·.outcome = .pushed)
  skipped : s.filesSkipped = ledger.countP (·.outcome = .skipped)
  failed : s.filesFailed = ledger.countP (·.outcome.message.isSome) + refused.length
  errors : s.errors = ledger.filterMap (·.outcome.message) ++ refused.map fun deletion =>
    failedToDelete deletion.1 deletion.2

/-- Some entries are posted, the others are open, and so many are not completed yet. -/
structure Posted (entries unposted : List PathBuf) (owed : Nat) (refused : List (Text × ClientError))
    (s : PushState ρ) : Prop where
  ledger : ∃ ledger, Booked env ctx disk ledger refused s ∧
    (ledger.map Posting.entry ++ unposted).Perm entries
  processed : s.processedEntries + owed = entries.length

/-- A file of the run was made for an entry that counts. -/
structure Owned (file : PendingPushFile) : Prop where
  counts : CountsOn disk file.localPath
  remotePath : file.remotePath = ctx.entryRemotePath file.localPath

/-- The entries of the batch are completed but not posted. -/
structure Balanced (entries unposted : List PathBuf) (owed : Nat) (s : PushState ρ) : Prop where
  posted : Posted env ctx disk entries (s.pendingBatch.files.map PendingPushFile.localPath ++ unposted) owed [] s
  batch : ∀ file ∈ s.pendingBatch.files, Owned ctx disk file

variable {env ctx disk} {ledger : List Posting} {refused : List (Text × ClientError)} {s next : PushState ρ}
  {entries unposted : List PathBuf} {owed : Nat} {entry : PathBuf} {file : PendingPushFile}

theorem failed_justified {message : Text} (names : NamesEntry env ctx entry message)
    (counts : CountsOn disk entry) : Posting.Justified env ctx disk ⟨entry, .failed message⟩ :=
  ⟨names, .inl counts⟩

namespace Booked

/-- Nothing but the counters and the errors matters. -/
theorem congr (booked : Booked env ctx disk ledger refused s) (pushed : next.filesPushed = s.filesPushed)
    (skipped : next.filesSkipped = s.filesSkipped) (failed : next.filesFailed = s.filesFailed)
    (errors : next.errors = s.errors) : Booked env ctx disk ledger refused next where
  justified := booked.justified
  pushed := pushed.trans booked.pushed
  skipped := skipped.trans booked.skipped
  failed := failed.trans booked.failed
  errors := errors.trans booked.errors

/-- A posting at the end of the ledger raises one counter at most. -/
theorem add (booked : Booked env ctx disk ledger [] s) {posting : Posting}
    (justified : posting.Justified env ctx disk)
    (pushed : next.filesPushed = s.filesPushed + if posting.outcome = .pushed then 1 else 0)
    (skipped : next.filesSkipped = s.filesSkipped + if posting.outcome = .skipped then 1 else 0)
    (failed : next.filesFailed = s.filesFailed + posting.outcome.message.toList.length)
    (errors : next.errors = s.errors ++ posting.outcome.message.toList) :
    Booked env ctx disk (ledger ++ [posting]) [] next := by
  constructor
  · intro other inside
    cases List.mem_append.mp inside with
    | inl earlier => exact booked.justified other earlier
    | inr new => exact List.mem_singleton.mp new ▸ justified
  · rw [pushed, booked.pushed, List.countP_append, List.countP_singleton]
    simp
  · rw [skipped, booked.skipped, List.countP_append, List.countP_singleton]
    simp
  · rw [failed, booked.failed, List.countP_append, List.countP_singleton]
    cases posting.outcome.message <;> simp
  · rw [errors, booked.errors, List.filterMap_append]
    cases found : posting.outcome.message <;> simp [found]

end Booked

namespace Posted

theorem perm (posted : Posted env ctx disk entries unposted owed refused s) {others : List PathBuf}
    (same : unposted.Perm others) : Posted env ctx disk entries others owed refused s := by
  obtain ⟨ledger, booked, complete⟩ := posted.ledger
  exact ⟨⟨ledger, booked, (same.symm.append_left _).trans complete⟩, posted.processed⟩

theorem congr (posted : Posted env ctx disk entries unposted owed refused s)
    (pushed : next.filesPushed = s.filesPushed) (skipped : next.filesSkipped = s.filesSkipped)
    (failed : next.filesFailed = s.filesFailed) (errors : next.errors = s.errors)
    (processed : next.processedEntries = s.processedEntries) :
    Posted env ctx disk entries unposted owed refused next := by
  obtain ⟨ledger, booked, complete⟩ := posted.ledger
  exact ⟨⟨ledger, booked.congr pushed skipped failed errors, complete⟩, processed ▸ posted.processed⟩

theorem completed (posted : Posted env ctx disk entries unposted (owed + 1) refused s) :
    Posted env ctx disk entries unposted owed refused s.processed := by
  obtain ⟨ledger, booked, complete⟩ := posted.ledger
  refine ⟨⟨ledger, booked.congr rfl rfl rfl rfl, complete⟩, ?_⟩
  have due := posted.processed
  show s.processedEntries + 1 + owed = entries.length
  omega

theorem add (posted : Posted env ctx disk entries (entry :: unposted) owed [] s) {outcome : EntryOutcome}
    (justified : Posting.Justified env ctx disk ⟨entry, outcome⟩)
    (pushed : next.filesPushed = s.filesPushed + if outcome = .pushed then 1 else 0)
    (skipped : next.filesSkipped = s.filesSkipped + if outcome = .skipped then 1 else 0)
    (failed : next.filesFailed = s.filesFailed + outcome.message.toList.length)
    (errors : next.errors = s.errors ++ outcome.message.toList)
    (processed : next.processedEntries = s.processedEntries) :
    Posted env ctx disk entries unposted owed [] next := by
  obtain ⟨ledger, booked, complete⟩ := posted.ledger
  refine ⟨⟨_, booked.add justified pushed skipped failed errors, ?_⟩, processed ▸ posted.processed⟩
  rw [List.map_append, List.append_assoc]
  exact complete

theorem failed {message : Text} (posted : Posted env ctx disk entries (entry :: unposted) owed [] s)
    (justified : Posting.Justified env ctx disk ⟨entry, .failed message⟩) :
    Posted env ctx disk entries unposted owed [] (s.failed message) :=
  posted.add justified rfl rfl rfl rfl rfl

theorem skipped (posted : Posted env ctx disk entries (entry :: unposted) owed [] s)
    (counts : CountsOn disk entry) (skipped : next.filesSkipped = s.filesSkipped + 1)
    (pushed : next.filesPushed = s.filesPushed) (failed : next.filesFailed = s.filesFailed)
    (errors : next.errors = s.errors) (processed : next.processedEntries = s.processedEntries) :
    Posted env ctx disk entries unposted owed [] next := by
  have justified : Posting.Justified env ctx disk ⟨entry, .skipped⟩ := counts
  exact posted.add justified pushed skipped failed (errors.trans (List.append_nil _).symm) processed

theorem pushed (posted : Posted env ctx disk entries (entry :: unposted) owed [] s)
    (counts : CountsOn disk entry) (pushed : next.filesPushed = s.filesPushed + 1)
    (skipped : next.filesSkipped = s.filesSkipped) (failed : next.filesFailed = s.filesFailed)
    (errors : next.errors = s.errors) (processed : next.processedEntries = s.processedEntries) :
    Posted env ctx disk entries unposted owed [] next := by
  have justified : Posting.Justified env ctx disk ⟨entry, .pushed⟩ := counts
  exact posted.add justified pushed skipped failed (errors.trans (List.append_nil _).symm) processed

/-- The files of an upload are posted together. -/
theorem uploaded {files : List PendingPushFile} (metas : List FileSyncMeta)
    (posted : Posted env ctx disk entries (files.map PendingPushFile.localPath ++ unposted) owed [] s)
    (owned : ∀ file ∈ files, Owned ctx disk file) :
    Posted env ctx disk entries unposted owed [] (s.uploaded files metas) := by
  have counted : ∀ (files : List PendingPushFile) (s : PushState ρ),
      Posted env ctx disk entries (files.map PendingPushFile.localPath ++ unposted) owed [] s →
      (∀ file ∈ files, Owned ctx disk file) →
      Posted env ctx disk entries unposted owed [] { s with filesPushed := s.filesPushed + files.length } := by
    intro files
    induction files with
    | nil =>
        intro s posted _
        exact posted
    | cons file rest ih =>
        intro s posted owned
        have first : Posted env ctx disk entries (rest.map PendingPushFile.localPath ++ unposted) owed []
            { s with filesPushed := s.filesPushed + 1 } :=
          posted.pushed (owned file List.mem_cons_self).counts rfl rfl rfl rfl rfl
        have all := ih _ first fun other inside => owned other (List.mem_cons_of_mem _ inside)
        apply all.congr
        · show s.filesPushed + (rest.length + 1) = s.filesPushed + 1 + rest.length
          omega
        · rfl
        · rfl
        · rfl
        · rfl
  exact (counted files s posted owned).congr rfl rfl rfl rfl rfl

end Posted

/-- Programs on the world do not touch what only looks at the variables. -/
theorem onWorld_keeps {α : Type} {P : PushState ρ → Prop} {x : Program ρ α}
    (worldly : ∀ s w, P s → P (s.withWorld w)) : Triple P (onWorld x) (fun _ => P) (fun _ => P) :=
  onWorld_triple fun s holds => Triple.trivially (fun _ w => worldly s w holds) fun _ w => worldly s w holds

theorem attempt_keeps {α : Type} {P : PushState ρ → Prop} {x : Program ρ α} {E : ClientError → PushState ρ → Prop}
    (worldly : ∀ s w, P s → P (s.withWorld w)) : Triple P (Proc.attempt (onWorld x)) (fun _ => P) E :=
  Triple.attempt ((onWorld_keeps worldly).conseq (fun _ => id) (fun _ _ => id) fun _ _ => id)

section Flush

variable {config : BlobConfig}

/-- The postings of a run go on. -/
abbrev PostedBy {α : Type} (env : Env ρ) (ctx : PushContext) (disk : Tree) (entries before : List PathBuf) (owed : Nat)
    (x : PushProgram ρ α) (after : α → List PathBuf) : Prop :=
  Triple (Posted env ctx disk entries before owed []) x
    (fun a => Posted env ctx disk entries (after a) owed []) (fun _ _ => True)

theorem onWorld_posted {α : Type} {x : Program ρ α} :
    PostedBy env ctx disk entries unposted owed (onWorld x) fun _ => unposted :=
  (onWorld_keeps fun _ _ posted => posted.congr rfl rfl rfl rfl rfl).conseq (fun _ => id) (fun _ _ => id)
    fun _ _ _ => trivial

theorem attempt_posted {α : Type} {x : Program ρ α} :
    PostedBy env ctx disk entries unposted owed (Proc.attempt (onWorld x)) fun _ => unposted :=
  attempt_keeps fun _ _ posted => posted.congr rfl rfl rfl rfl rfl

theorem flushPendingMetadataUpdates_posted :
    PostedBy env ctx disk entries unposted owed (flushPendingMetadataUpdates env) fun _ => unposted := by
  apply Triple.bind (Q := fun _ => Posted env ctx disk entries unposted owed [])
  · exact Triple.get fun _ posted => posted
  · intro s
    apply Triple.ite
    · intro _
      exact Triple.ret fun _ posted => posted
    · intro _
      apply Triple.seq
      · exact Triple.modify fun s posted => posted.congr rfl rfl rfl rfl rfl
      · exact onWorld_posted

theorem recordPushFailure_posted {error : ClientError} (owned : Owned ctx disk file) :
    PostedBy env ctx disk entries (file.localPath :: unposted) owed (recordPushFailure env file error)
      fun _ => unposted := by
  have names : NamesEntry env ctx file.localPath (failedToUpload file.remotePath error) := by
    apply Or.inr
    rw [← owned.remotePath]
    exact ⟨text "failed to upload ", text ": " ++ error.display, by simp [failedToUpload]⟩
  apply Triple.seq onWorld_posted
  apply Triple.ite
  · intro _
    exact Triple.throw fun _ _ => trivial
  · intro _
    apply Triple.ite
    · intro _
      exact Triple.throw fun _ _ => trivial
    · intro _
      apply Triple.bind (Q := fun _ => Posted env ctx disk entries unposted owed [])
      · exact Triple.modify fun _ posted => posted.failed (failed_justified names owned.counts)
      · intro _
        apply Triple.when
        · intro _
          apply Triple.bind onWorld_posted
          intro record
          apply Triple.bind attempt_posted
          intro _
          exact Triple.ret fun _ posted => posted
        · exact fun _ _ posted => posted

/-- A file that is tried on its own is posted as failed, or it waits for the files that were uploaded. -/
theorem pushSeparately_posted {files : List PendingPushFile} (owned : ∀ file ∈ files, Owned ctx disk file) :
    Triple (Posted env ctx disk entries (files.map PendingPushFile.localPath ++ unposted) owed [])
      (pushSeparately env config files)
      (fun successes s =>
        Posted env ctx disk entries ((successes.map Prod.fst).map PendingPushFile.localPath ++ unposted) owed [] s ∧
          ∀ file ∈ successes.map Prod.fst, Owned ctx disk file) (fun _ _ => True) := by
  induction files generalizing unposted with
  | nil =>
      apply Triple.ret
      intro s posted
      exact ⟨posted, fun file inside => by cases inside⟩
  | cons file rest ih =>
      have mine := owned file List.mem_cons_self
      have others : ∀ other ∈ rest, Owned ctx disk other := fun other inside =>
        owned other (List.mem_cons_of_mem _ inside)
      apply Triple.bind attempt_posted
      intro outcome
      cases outcome with
      | error error => exact Triple.seq (recordPushFailure_posted mine) (ih others)
      | ok _ =>
          apply Triple.bind onWorld_posted
          intro record
          have later := (@ih (file.localPath :: unposted) others).weaken
            (U := Posted env ctx disk entries ((file :: rest).map PendingPushFile.localPath ++ unposted) owed [])
            fun _ posted => posted.perm List.perm_middle.symm
          apply Triple.bind later
          intro successes
          apply Triple.ret
          intro s holds
          refine ⟨holds.1.perm List.perm_middle, ?_⟩
          intro other inside
          cases inside with
          | head => exact mine
          | tail _ inside => exact holds.2 other inside

theorem pushFiles_posted {files : List PendingPushFile} (owned : ∀ file ∈ files, Owned ctx disk file) :
    PostedBy env ctx disk entries (files.map PendingPushFile.localPath ++ unposted) owed
      (pushFiles env config files) fun _ => unposted := by
  apply Triple.bind attempt_posted
  intro outcome
  cases outcome with
  | error error =>
      apply Triple.ite
      · intro _
        exact Triple.throw fun _ _ => trivial
      · intro _
        apply Triple.ite
        · intro _
          exact Triple.throw fun _ _ => trivial
        · intro _
          apply Triple.bind (pushSeparately_posted owned)
          intro successes
          apply Triple.bind (Q := fun _ => Posted env ctx disk entries unposted owed [])
          · exact Triple.modify fun _ holds => holds.1.uploaded _ holds.2
          · exact fun _ => flushPendingMetadataUpdates_posted
  | ok _ =>
      apply Triple.bind onWorld_posted
      intro metas
      apply Triple.bind (Q := fun _ => Posted env ctx disk entries unposted owed [])
      · exact Triple.modify fun _ posted => posted.uploaded _ owned
      · exact fun _ => flushPendingMetadataUpdates_posted

/-- A flush posts all files of the batch. -/
theorem flushPushBatch_posted : Triple (Balanced env ctx disk entries unposted owed) (flushPushBatch env config)
    (fun _ s => Posted env ctx disk entries unposted owed [] s ∧ s.pendingBatch.files = []) (fun _ _ => True) := by
  apply Triple.bind (Q := fun t s => t = s ∧ Balanced env ctx disk entries unposted owed s)
  · exact Triple.get fun s balanced => ⟨rfl, balanced⟩
  · intro t
    apply Triple.ite
    · intro none
      apply Triple.ret
      intro s holds
      obtain ⟨rfl, balanced⟩ := holds
      refine ⟨?_, none⟩
      have posted := balanced.posted
      rwa [none] at posted
    · intro _
      apply Triple.assume (C := ∀ file ∈ t.pendingBatch.files, Owned ctx disk file)
      · intro s holds
        exact holds.1 ▸ holds.2.batch
      · intro owned
        apply Triple.bind (Q := fun _ s => Posted env ctx disk entries
          (t.pendingBatch.files.map PendingPushFile.localPath ++ unposted) owed [] s ∧ s.pendingBatch = .empty)
        · apply Triple.modify
          intro s holds
          obtain ⟨rfl, balanced⟩ := holds
          exact ⟨balanced.posted.congr rfl rfl rfl rfl rfl, rfl⟩
        · intro _
          have posted : PostedBy env ctx disk entries (t.pendingBatch.files.map PendingPushFile.localPath ++ unposted)
              owed (pushFiles env config t.pendingBatch.files) fun _ => unposted := pushFiles_posted owned
          have kept : KeepsBatch .empty (pushFiles env config t.pendingBatch.files) := pushFiles_batch
          intro s holds
          have outcome := Triple.both (posted.weaken fun _ => And.left) (kept.weaken fun _ => And.right) s holds
          revert outcome
          rcases pushFiles env config t.pendingBatch.files s with ⟨result, next⟩
          cases result with
          | error error => exact fun _ => trivial
          | ok _ => exact fun outcome => ⟨outcome.1, congrArg PushBatch.files outcome.2⟩

end Flush

namespace Balanced

theorem of_flushed (posted : Posted env ctx disk entries unposted owed [] s) (none : s.pendingBatch.files = []) :
    Balanced env ctx disk entries unposted owed s where
  posted := by rwa [none]
  batch := fun file inside => by rw [none] at inside; cases inside

theorem perm (balanced : Balanced env ctx disk entries unposted owed s) {others : List PathBuf}
    (same : unposted.Perm others) : Balanced env ctx disk entries others owed s :=
  ⟨balanced.posted.perm (same.append_left _), balanced.batch⟩

/-- A step beside the batch posts an entry. -/
theorem post (balanced : Balanced env ctx disk entries (entry :: unposted) owed s)
    (batch : next.pendingBatch = s.pendingBatch) (posts : ∀ others,
      Posted env ctx disk entries (entry :: others) owed [] s → Posted env ctx disk entries others owed [] next) :
    Balanced env ctx disk entries unposted owed next where
  posted := by
    rw [batch]
    exact posts _ (balanced.posted.perm List.perm_middle)
  batch := batch ▸ balanced.batch

theorem withWorld (balanced : Balanced env ctx disk entries unposted owed s) (w : World ρ) :
    Balanced env ctx disk entries unposted owed (s.withWorld w) :=
  ⟨balanced.posted.congr rfl rfl rfl rfl rfl, balanced.batch⟩

theorem queued (balanced : Balanced env ctx disk entries (file.localPath :: unposted) owed s)
    (owned : Owned ctx disk file) (config : BlobConfig) :
    Balanced env ctx disk entries unposted owed (s.queued file config) where
  posted := by
    have joined : (s.queued file config).pendingBatch.files.map PendingPushFile.localPath ++ unposted =
        s.pendingBatch.files.map PendingPushFile.localPath ++ file.localPath :: unposted := by
      show (s.pendingBatch.files ++ [file]).map PendingPushFile.localPath ++ unposted = _
      simp
    rw [joined]
    exact balanced.posted.congr rfl rfl rfl rfl rfl
  batch := by
    intro other inside
    cases List.mem_append.mp inside with
    | inl earlier => exact balanced.batch other earlier
    | inr new => exact List.mem_singleton.mp new ▸ owned

theorem failed {message : Text} (balanced : Balanced env ctx disk entries (entry :: unposted) owed s)
    (justified : Posting.Justified env ctx disk ⟨entry, .failed message⟩) :
    Balanced env ctx disk entries unposted owed (s.failed message) :=
  balanced.post rfl fun _ posted => posted.failed justified

theorem skipped (balanced : Balanced env ctx disk entries (entry :: unposted) owed s)
    (counts : CountsOn disk entry) : Balanced env ctx disk entries unposted owed s.skipped :=
  balanced.post rfl fun _ posted => posted.skipped counts rfl rfl rfl rfl rfl

end Balanced

section Prepare

variable {config : BlobConfig}

abbrev BalancedBy {α : Type} (env : Env ρ) (ctx : PushContext) (disk : Tree) (entries before : List PathBuf)
    (owed : Nat) (x : PushProgram ρ α) (after : α → List PathBuf) (left : Nat) : Prop :=
  Triple (Balanced env ctx disk entries before owed) x
    (fun a => Balanced env ctx disk entries (after a) left) (fun _ _ => True)

theorem onWorld_balanced {α : Type} {x : Program ρ α} :
    BalancedBy env ctx disk entries unposted owed (onWorld x) (fun _ => unposted) owed :=
  (onWorld_keeps fun _ w balanced => balanced.withWorld w).conseq (fun _ => id) (fun _ _ => id)
    fun _ _ _ => trivial

theorem attempt_balanced {α : Type} {x : Program ρ α} :
    BalancedBy env ctx disk entries unposted owed (Proc.attempt (onWorld x)) (fun _ => unposted) owed :=
  attempt_keeps fun _ w balanced => balanced.withWorld w

theorem flushPushBatch_balanced :
    BalancedBy env ctx disk entries unposted owed (flushPushBatch env config) (fun _ => unposted) owed :=
  flushPushBatch_posted.strengthen fun _ _ holds => .of_flushed holds.1 holds.2

theorem flush_when {c : Prop} [Decidable c] :
    BalancedBy env ctx disk entries unposted owed (Proc.when c (flushPushBatch env config)) (fun _ => unposted)
      owed :=
  Triple.when (fun _ => flushPushBatch_balanced) fun _ _ balanced => balanced

theorem completeEntry_balanced :
    BalancedBy env ctx disk entries unposted (owed + 1) (completeEntry env config) (fun _ => unposted) owed := by
  apply Triple.bind (Q := fun _ => Balanced env ctx disk entries unposted owed)
  · apply Triple.modify
    intro s balanced
    exact ⟨balanced.posted.completed, balanced.batch⟩
  · intro _
    apply Triple.bind (Q := fun _ => Balanced env ctx disk entries unposted owed)
    · exact Triple.get fun _ balanced => balanced
    · intro s
      exact flush_when

theorem failEntry_balanced {message : Text}
    (justified : Posting.Justified env ctx disk ⟨entry, .failed message⟩) :
    BalancedBy env ctx disk entries (entry :: unposted) (owed + 1) (failEntry env ctx message) (fun _ => unposted)
      owed := by
  apply Triple.bind (Q := fun _ => Balanced env ctx disk entries unposted (owed + 1))
  · exact Triple.modify fun _ balanced => balanced.failed justified
  · intro _
    exact completeEntry_balanced

theorem skipEntry_balanced (counts : CountsOn disk entry) :
    BalancedBy env ctx disk entries (entry :: unposted) (owed + 1) (skipEntry env ctx) (fun _ => unposted)
      owed := by
  apply Triple.bind (Q := fun _ => Balanced env ctx disk entries unposted (owed + 1))
  · exact Triple.modify fun _ balanced => balanced.skipped counts
  · intro _
    exact completeEntry_balanced

/-- The entry is open unless the answer says that it was dealt with. -/
def leftOpen (entry : PathBuf) (unposted : List PathBuf) (done : Bool) : List PathBuf :=
  if done = true then unposted else entry :: unposted

theorem recordMove_balanced {oldPath : Text} (owned : Owned ctx disk file) :
    BalancedBy env ctx disk entries (file.localPath :: unposted) owed (recordMove env oldPath file)
      (fun _ => unposted) owed := by
  apply Triple.bind onWorld_balanced
  intro record
  apply Triple.bind onWorld_balanced
  intro _
  apply Triple.bind onWorld_balanced
  intro _
  apply Triple.modify
  intro s balanced
  exact balanced.post rfl fun _ posted => posted.pushed owned.counts rfl rfl rfl rfl rfl

theorem tryMove_balanced {queryRoot : Text} {oldPath : Option Text}
    {refused : Text → ClientError → PushProgram ρ Bool} (owned : Owned ctx disk file)
    (refuses : ∀ oldPath error, BalancedBy env ctx disk entries (file.localPath :: unposted) owed
      (refused oldPath error) (leftOpen file.localPath unposted) owed) :
    BalancedBy env ctx disk entries (file.localPath :: unposted) owed (tryMove env queryRoot oldPath file refused)
      (leftOpen file.localPath unposted) owed := by
  have stays : BalancedBy env ctx disk entries (file.localPath :: unposted) owed
      (pure false : PushProgram ρ Bool) (leftOpen file.localPath unposted) owed :=
    Triple.ret fun _ balanced => balanced
  apply Triple.bind (Q := fun _ => Balanced env ctx disk entries (file.localPath :: unposted) owed)
  · exact Triple.get fun _ balanced => balanced
  · intro s
    cases oldPath with
    | none => exact stays
    | some oldPath =>
        dsimp only
        cases s.metadataByPath.find oldPath with
        | none => exact stays
        | some source =>
            apply Triple.ite
            · intro _
              apply Triple.bind attempt_balanced
              intro answer
              rcases answer with _ | _ | _
              · exact stays
              · exact stays
              · apply Triple.bind onWorld_balanced
                intro _
                apply Triple.bind attempt_balanced
                intro moved
                cases moved with
                | error error => exact refuses oldPath error
                | ok _ =>
                    apply Triple.bind (recordMove_balanced owned)
                    intro _
                    exact Triple.ret fun _ balanced => balanced
            · intro _
              exact stays

theorem recordTarget_balanced {oldPath : Text} (owned : Owned ctx disk file) :
    BalancedBy env ctx disk entries (file.localPath :: unposted) owed (recordTarget env oldPath file)
      (fun _ => unposted) owed := by
  apply Triple.bind onWorld_balanced
  intro record
  apply Triple.bind (Q := fun _ => Balanced env ctx disk entries (file.localPath :: unposted) owed)
  · apply Triple.bind (Q := fun _ => Balanced env ctx disk entries (file.localPath :: unposted) owed)
    · exact Triple.get fun _ balanced => balanced
    · intro s
      apply Triple.ite
      · intro _
        apply Triple.bind onWorld_balanced
        intro _
        apply Triple.modify
        intro s balanced
        exact ⟨balanced.posted.congr rfl rfl rfl rfl rfl, balanced.batch⟩
      · intro _
        exact Triple.ret fun _ balanced => balanced
  · intro _
    apply Triple.bind onWorld_balanced
    intro _
    apply Triple.modify
    intro s balanced
    exact balanced.post rfl fun _ posted => posted.skipped owned.counts rfl rfl rfl rfl rfl

theorem tryTarget_balanced {migration : Option SyncPathMigration} {oldPath : Option Text}
    (owned : Owned ctx disk file) :
    BalancedBy env ctx disk entries (file.localPath :: unposted) owed (tryTarget env migration oldPath file)
      (leftOpen file.localPath unposted) owed := by
  have stays : BalancedBy env ctx disk entries (file.localPath :: unposted) owed
      (pure false : PushProgram ρ Bool) (leftOpen file.localPath unposted) owed :=
    Triple.ret fun _ balanced => balanced
  cases migration with
  | none => exact stays
  | some migration =>
      cases oldPath with
      | none => exact stays
      | some oldPath =>
          apply Triple.bind attempt_balanced
          intro answer
          rcases answer with _ | _ | _
          · exact stays
          · exact stays
          · apply Triple.bind (recordTarget_balanced owned)
            intro _
            exact Triple.ret fun _ balanced => balanced

theorem queueCandidate_balanced (owned : Owned ctx disk file) :
    BalancedBy env ctx disk entries (file.localPath :: unposted) owed (queueCandidate env ctx file)
      (fun _ => unposted) owed := by
  apply Triple.bind (Q := fun _ => Balanced env ctx disk entries (file.localPath :: unposted) owed)
  · exact Triple.get fun _ balanced => balanced
  · intro before
    apply Triple.bind flush_when
    intro _
    apply Triple.bind (Q := fun _ => Balanced env ctx disk entries unposted owed)
    · exact Triple.modify fun _ balanced => balanced.queued owned ctx.config
    · intro _
      apply Triple.bind (Q := fun _ => Balanced env ctx disk entries unposted owed)
      · exact Triple.get fun _ balanced => balanced
      · intro after
        exact flush_when

theorem pushUnrecorded_balanced {request : PushFilePrepRequest} (owned : Owned ctx disk file) :
    BalancedBy env ctx disk entries (file.localPath :: unposted) (owed + 1) (pushUnrecorded env ctx request file)
      (fun _ => unposted) owed := by
  have names : ∀ oldPath error, NamesEntry env ctx file.localPath (failedToMigrate oldPath file.remotePath error) := by
    intro oldPath error
    apply Or.inr
    rw [← owned.remotePath]
    exact ⟨text "failed to migrate remote " ++ oldPath ++ text " to ", text ": " ++ error.display,
      by simp [failedToMigrate]⟩
  apply Triple.bind
  · apply tryMove_balanced owned
    intro _ _
    exact Triple.ret fun _ balanced => balanced
  · intro legacy
    cases legacy with
    | true => exact completeEntry_balanced
    | false =>
        apply Triple.bind
        · apply tryMove_balanced owned
          intro oldPath error
          apply Triple.bind (Q := fun _ => Balanced env ctx disk entries unposted (owed + 1))
          · exact Triple.modify fun _ balanced => balanced.failed (failed_justified (names oldPath error) owned.counts)
          · intro _
            exact Triple.ret fun _ balanced => balanced
        · intro moved
          cases moved with
          | true => exact completeEntry_balanced
          | false =>
              apply Triple.bind (tryTarget_balanced owned)
              intro present
              cases present with
              | true => exact completeEntry_balanced
              | false =>
                  apply Triple.bind (queueCandidate_balanced owned)
                  intro _
                  exact completeEntry_balanced

theorem pushRecorded_balanced {record : FileSyncMeta} (owned : Owned ctx disk file) :
    BalancedBy env ctx disk entries (file.localPath :: unposted) (owed + 1) (pushRecorded env ctx record file)
      (fun _ => unposted) owed := by
  apply Triple.ite
  · intro _
    apply Triple.ite
    · intro _
      apply Triple.bind onWorld_balanced
      intro updated
      apply Triple.bind (Q := fun _ => Balanced env ctx disk entries (file.localPath :: unposted) (owed + 1))
      · apply Triple.modify
        intro s balanced
        exact ⟨balanced.posted.congr rfl rfl rfl rfl rfl, balanced.batch⟩
      · intro _
        exact skipEntry_balanced owned.counts
    · intro _
      exact skipEntry_balanced owned.counts
  · intro _
    apply Triple.bind (queueCandidate_balanced owned)
    intro _
    exact completeEntry_balanced

/-- A request was made for an entry that counts. -/
structure Asks (ctx : PushContext) (disk : Tree) (request : PushFilePrepRequest) : Prop where
  counts : CountsOn disk request.entryPath
  remotePath : request.remotePath = ctx.entryRemotePath request.entryPath

/-- A program on the world has answered in some world. -/
theorem onWorld_answered {α : Type} {P : PushState ρ → Prop} {x : Program ρ α}
    (worldly : ∀ s w, P s → P (s.withWorld w)) :
    Triple P (onWorld x) (fun a s => P s ∧ ∃ w, (x w).1 = .ok a) (fun _ _ => True) := by
  apply onWorld_triple
  intro s holds w _
  rcases equal : x w with ⟨result, after⟩
  cases result with
  | error error => trivial
  | ok a => exact ⟨worldly s after holds, w, by rw [equal]⟩

theorem attempt_answered {α : Type} {P : PushState ρ → Prop} {x : Program ρ α}
    {E : ClientError → PushState ρ → Prop} (worldly : ∀ s w, P s → P (s.withWorld w)) :
    Triple P (Proc.attempt (onWorld x)) (fun r s => P s ∧ ∃ w, r = (x w).1) E := by
  apply Triple.attempt
  apply onWorld_triple
  intro s holds w _
  rcases equal : x w with ⟨result, after⟩
  cases result with
  | error error => exact ⟨worldly s after holds, w, by rw [equal]⟩
  | ok a => exact ⟨worldly s after holds, w, by rw [equal]⟩

theorem arrange_answered {α : Type} {xs ys : List α} {w : World ρ} (answer : (arrange env xs w).1 = .ok ys) :
    ys.Perm xs := by
  cases answer
  exact env.order_perm w.tick xs

/-- A file that cannot be read is named by the message. -/
theorem hashFileContent_names {path : PathBuf} {w : World ρ} {message : Text}
    (answer : (hashFileContent env path w).1 = .ok (.error message)) : env.debugPath path <:+: message := by
  have failing : ∀ (what : String) (rest : Text), env.debugPath path <:+: text what ++ env.debugPath path ++ text ": " ++ rest :=
    fun what rest => ⟨text what, text ": " ++ rest, by simp⟩
  have named : ∀ (w : World ρ) (message : Text), (readFile env path w).1 = .ok (.error message) →
      env.debugPath path <:+: message := by
    intro w message answer
    unfold readFile at answer
    rw [Proc.bind_apply] at answer
    rcases opened : openFile env path w with ⟨result, next⟩
    rw [opened] at answer
    cases result with
    | error error => cases answer
    | ok result =>
        cases result with
        | error error =>
            cases answer
            exact failing "failed to open " error.text
        | ok _ =>
            dsimp only at answer
            rw [Proc.bind_apply] at answer
            rcases taken : readDisk env .read path (fun disk => disk.read path) next with ⟨result, last⟩
            rw [taken] at answer
            cases result with
            | error error => cases answer
            | ok result =>
                cases result with
                | error error =>
                    cases answer
                    exact failing "failed to read " error.text
                | ok content => cases answer
  unfold hashFileContent at answer
  rw [Proc.bind_apply] at answer
  rcases read : readFile env path w with ⟨result, next⟩
  rw [read] at answer
  cases result with
  | error error => cases answer
  | ok result =>
      cases result with
      | error other =>
          cases answer
          exact named w message (by rw [read])
      | ok content => cases answer

theorem pushRequest_balanced {request : PushFilePrepRequest} (asks : Asks ctx disk request) :
    BalancedBy env ctx disk entries (request.entryPath :: unposted) (owed + 1) (pushRequest env ctx request)
      (fun _ => unposted) owed := by
  apply Triple.bind (onWorld_answered fun _ w balanced => balanced.withWorld w)
  intro outcome
  apply Triple.assume (fun _ holds => holds.2)
  intro answer
  apply Triple.weaken (P := Balanced env ctx disk entries (request.entryPath :: unposted) (owed + 1))
  · obtain ⟨w, answer⟩ := answer
    rcases outcome with message | ⟨hash, size⟩
    · exact failEntry_balanced (failed_justified (.inl (hashFileContent_names answer)) asks.counts)
    · have owned : Owned ctx disk (candidateOf request hash size) := ⟨asks.counts, asks.remotePath⟩
      dsimp only
      cases request.storedMeta with
      | some record => exact pushRecorded_balanced owned
      | none => exact pushUnrecorded_balanced owned
  · exact fun _ holds => holds.1

theorem pushPreparedFiles_posted {requests : List PushFilePrepRequest}
    (asks : ∀ request ∈ requests, Asks ctx disk request) :
    Triple (fun s => s.filePrepRequests = requests ∧ Balanced env ctx disk entries
        (requests.map PushFilePrepRequest.entryPath ++ unposted) (requests.length + owed) s)
      (pushPreparedFiles env ctx) (fun _ => Posted env ctx disk entries unposted owed []) (fun _ _ => True) := by
  apply Triple.bind (Q := fun t s => t.filePrepRequests = requests ∧ Balanced env ctx disk entries
    (requests.map PushFilePrepRequest.entryPath ++ unposted) (requests.length + owed) s)
  · exact Triple.get fun _ holds => holds
  · intro t
    apply Triple.assume (fun _ holds => holds.1)
    intro listed
    rw [listed]
    apply Triple.weaken (P := Balanced env ctx disk entries
      (requests.map PushFilePrepRequest.entryPath ++ unposted) (requests.length + owed))
    · apply Triple.bind (onWorld_answered fun _ w balanced => balanced.withWorld w)
      intro arranged
      apply Triple.assume (fun _ holds => holds.2)
      intro ⟨w, answer⟩
      have perm := arrange_answered answer
      apply Triple.weaken (P := Balanced env ctx disk entries
        (arranged.map PushFilePrepRequest.entryPath ++ unposted) (arranged.length + owed))
      · apply Triple.bind (Q := fun _ => Balanced env ctx disk entries unposted owed)
        · have looped : Triple (Balanced env ctx disk entries
              (arranged.map PushFilePrepRequest.entryPath ++ unposted) (arranged.length + owed))
              (Proc.forEach arranged (pushRequest env ctx))
              (fun _ => Balanced env ctx disk entries ([] ++ unposted) (0 + owed)) (fun _ _ => True) := by
            apply Triple.forEach (fun rest => Balanced env ctx disk entries
              (rest.map PushFilePrepRequest.entryPath ++ unposted) (rest.length + owed))
            intro request rest suffix
            have inside : request ∈ requests := perm.subset (suffix.subset List.mem_cons_self)
            have step : BalancedBy env ctx disk entries
                (request.entryPath :: (rest.map PushFilePrepRequest.entryPath ++ unposted)) (rest.length + owed + 1)
                (pushRequest env ctx request) (fun _ => rest.map PushFilePrepRequest.entryPath ++ unposted)
                (rest.length + owed) := pushRequest_balanced (asks request inside)
            rwa [show rest.length + owed + 1 = (request :: rest).length + owed by simp; omega] at step
          simpa using looped
        · intro _
          apply Triple.bind flushPushBatch_posted
          intro _
          exact flushPendingMetadataUpdates_posted.weaken fun _ holds => holds.1
      · intro s holds
        rw [perm.length_eq]
        exact holds.1.perm ((perm.map _).symm.append_right _)
    · exact fun _ holds => holds.2

end Prepare

section Tail

/-- A symlink of the run was read from an entry. -/
structure LinkOf (ctx : PushContext) (disk : Tree) (link : PendingSymlink) (entry : PathBuf) : Prop where
  counts : CountsOn disk entry
  remotePath : link.remotePath = ctx.entryRemotePath entry

theorem pushSymlinks_posted {links : List PendingSymlink} {owners : List PathBuf}
    (owned : List.Forall₂ (LinkOf ctx disk) links owners) :
    Triple (Posted env ctx disk entries (owners ++ unposted) (links.length + owed) []) (pushSymlinks env ctx links)
      (fun _ => Posted env ctx disk entries unposted owed []) (fun _ _ => True) := by
  induction owned with
  | nil =>
      apply Triple.ret
      intro s posted
      simpa using posted
  | @cons link owner links owners mine _ ih =>
      have names : ∀ error : ClientError, NamesEntry env ctx owner
          (text "failed to push symlink " ++ link.remotePath ++ text ": " ++ error.display) := by
        intro error
        apply Or.inr
        rw [← mine.remotePath]
        exact ⟨text "failed to push symlink ", text ": " ++ error.display, by simp⟩
      apply Triple.bind attempt_posted
      intro outcome
      apply Triple.bind (Q := fun _ => Posted env ctx disk entries (owner :: (owners ++ unposted))
        (links.length + owed) [])
      · apply Triple.modify
        intro s posted
        rw [show (link :: links).length + owed = links.length + owed + 1 by simp; omega] at posted
        exact posted.completed
      · intro _
        cases outcome with
        | error error =>
            apply Triple.bind (Q := fun _ => Posted env ctx disk entries (owners ++ unposted) (links.length + owed) [])
            · exact Triple.modify fun _ posted => posted.failed (failed_justified (names error) mine.counts)
            · intro _
              exact ih
        | ok pushed =>
            apply Triple.bind onWorld_posted
            intro time
            apply Triple.bind (Q := fun _ => Posted env ctx disk entries (owners ++ unposted) (links.length + owed) [])
            · apply Triple.modify
              intro s posted
              cases pushed with
              | true => exact posted.pushed mine.counts rfl rfl rfl rfl rfl
              | false => exact posted.skipped mine.counts rfl rfl rfl rfl rfl
            · intro _
              apply Triple.bind ih
              intro others
              exact Triple.ret fun _ posted => posted

theorem pushPendingSymlinks_posted {links : List PendingSymlink} {owners : List PathBuf}
    (owned : List.Forall₂ (LinkOf ctx disk) links owners) :
    Triple (fun s => s.pendingSymlinks = links ∧
        Posted env ctx disk entries (owners ++ unposted) (links.length + owed) [] s)
      (pushPendingSymlinks env ctx) (fun _ => Posted env ctx disk entries unposted owed []) (fun _ _ => True) := by
  apply Triple.bind (Q := fun t s => t.pendingSymlinks = links ∧
    Posted env ctx disk entries (owners ++ unposted) (links.length + owed) [] s)
  · exact Triple.get fun _ holds => holds
  · intro t
    apply Triple.assume (fun _ holds => holds.1)
    intro listed
    rw [listed]
    apply Triple.bind (onWorld_answered fun _ w holds => ⟨holds.1, holds.2.congr rfl rfl rfl rfl rfl⟩)
    intro arranged
    apply Triple.assume (fun _ holds => holds.2)
    intro ⟨w, answer⟩
    have perm := arrange_answered answer
    obtain ⟨owners', owned', same⟩ := List.perm_comp_forall₂ perm owned
    apply Triple.weaken (P := Posted env ctx disk entries (owners' ++ unposted) (arranged.length + owed) [])
    · apply Triple.bind (pushSymlinks_posted owned')
      intro updates
      exact onWorld_posted
    · intro s holds
      rw [perm.length_eq]
      exact holds.1.2.perm (same.symm.append_right _)

theorem cleanupMigration_posted :
    PostedBy env ctx disk entries unposted owed (cleanupMigration env ctx) fun _ => unposted := by
  apply Triple.bind (Q := fun _ => Posted env ctx disk entries unposted owed [])
  · exact Triple.get fun _ posted => posted
  · intro s
    cases ctx.migration with
    | none => exact Triple.ret fun _ posted => posted
    | some migration =>
        apply Triple.when
        · intro _
          apply Triple.bind (Q := fun _ => Posted env ctx disk entries unposted owed [])
          · exact Triple.get fun _ posted => posted
          · intro t
            apply Triple.bind onWorld_posted
            intro stale
            apply Triple.forEach_keep
            intro path _
            apply Triple.bind onWorld_posted
            intro _
            exact Triple.modify fun s posted => posted.congr rfl rfl rfl rfl rfl
        · exact fun _ _ posted => posted

/-- The engine has refused to delete a path whose local entry is gone. -/
structure RefusedDeletion (env : Env ρ) (ctx : PushContext) (seen : List Text) (deletion : Text × ClientError) : Prop where
  deleted : isDeletedLocally ctx seen deletion.1 = true
  refused : ∃ remote, (env.engine.deleteFile deletion.1 remote).1 = .error deletion.2

/-- Everything is posted, and the deletions up to some rest have been tried. -/
structure Deleting (env : Env ρ) (ctx : PushContext) (disk : Tree) (entries : List PathBuf)
    (recorded : List Text) (seen : List Text) (rest : List Text) (refused : List (Text × ClientError))
    (s : PushState ρ) : Prop where
  posted : Posted env ctx disk entries [] 0 refused s
  seenPaths : s.seenRemotePaths = seen
  listed : recorded.Perm s.metadataByPath.paths
  refusals : ∀ deletion ∈ refused, RefusedDeletion env ctx seen deletion
  once : (refused.map Prod.fst ++ rest).Sublist recorded

theorem Deleting.withWorld {recorded seen rest : List Text}
    (deleting : Deleting env ctx disk entries recorded seen rest refused s) (w : World ρ) :
    Deleting env ctx disk entries recorded seen rest refused (s.withWorld w) :=
  { deleting with posted := deleting.posted.congr rfl rfl rfl rfl rfl }

theorem Deleting.skip {recorded seen rest : List Text} {path : Text}
    (deleting : Deleting env ctx disk entries recorded seen (path :: rest) refused s) :
    Deleting env ctx disk entries recorded seen rest refused s :=
  { deleting with once := ((List.Sublist.refl _).append (List.sublist_cons_self path rest)).trans deleting.once }

/-- A refused deletion is the only other way to a failure. -/
theorem Deleting.refuse {recorded seen rest : List Text} {path : Text} {error : ClientError}
    (deleting : Deleting env ctx disk entries recorded seen (path :: rest) refused s)
    (refusal : RefusedDeletion env ctx seen (path, error)) :
    Deleting env ctx disk entries recorded seen rest (refused ++ [(path, error)])
      (s.failed (failedToDelete path error)) where
  posted := by
    obtain ⟨ledger, booked, complete⟩ := deleting.posted.ledger
    refine ⟨⟨ledger, ⟨booked.justified, booked.pushed, booked.skipped, ?_, ?_⟩, complete⟩, deleting.posted.processed⟩
    · show s.filesFailed + 1 = _
      rw [booked.failed, List.length_append, List.length_singleton, Nat.add_assoc]
    · show s.errors ++ [failedToDelete path error] = _
      rw [booked.errors, List.map_append, List.append_assoc]
      rfl
  seenPaths := deleting.seenPaths
  listed := deleting.listed
  refusals := by
    intro deletion inside
    cases List.mem_append.mp inside with
    | inl earlier => exact deleting.refusals deletion earlier
    | inr new => exact List.mem_singleton.mp new ▸ refusal
  once := by
    rw [List.map_append, List.append_assoc]
    exact deleting.once

theorem deleteRemote_deleting {recorded seen rest : List Text} {path : Text}
    (deleted : isDeletedLocally ctx seen path = true) :
    Triple (fun s => ∃ refused, Deleting env ctx disk entries recorded seen (path :: rest) refused s)
      (deleteRemote env path)
      (fun _ s => ∃ refused, Deleting env ctx disk entries recorded seen rest refused s) (fun _ _ => True) := by
  have worldly : ∀ (s : PushState ρ) w, (∃ refused, Deleting env ctx disk entries recorded seen (path :: rest) refused s) →
      ∃ refused, Deleting env ctx disk entries recorded seen (path :: rest) refused (s.withWorld w) := by
    intro s w ⟨refused, deleting⟩
    exact ⟨refused, deleting.withWorld w⟩
  apply Triple.bind ((onWorld_answered worldly).strengthen fun _ _ holds => holds.1)
  intro _
  apply Triple.bind (attempt_answered worldly)
  intro outcome
  apply Triple.assume (fun _ holds => holds.2)
  intro ⟨w, answer⟩
  apply Triple.weaken (P := fun s => ∃ refused, Deleting env ctx disk entries recorded seen (path :: rest) refused s)
  · cases outcome with
    | error error =>
        apply Triple.modify
        intro s ⟨refused, deleting⟩
        exact ⟨_, deleting.refuse ⟨deleted, w.remote, answer.symm⟩⟩
    | ok _ =>
        apply Triple.bind ((onWorld_answered worldly).strengthen fun _ _ holds => holds.1)
        intro _
        apply Triple.modify
        intro s ⟨refused, deleting⟩
        exact ⟨refused, { deleting.skip with posted := deleting.posted.congr rfl rfl rfl rfl rfl }⟩
  · exact fun _ holds => holds.1

/-- Every entry is completed, and each one has been pushed, skipped, failed or passed over. Besides, only refused
deletions have failed, each recorded path at most once. -/
structure Accounted (env : Env ρ) (ctx : PushContext) (disk : Tree) (entries : List PathBuf) (s : PushState ρ) :
    Prop where
  processed : s.processedEntries = entries.length
  ledger : ∃ ledger refused, Booked env ctx disk ledger refused s ∧ (ledger.map Posting.entry).Perm entries ∧
    (∀ deletion ∈ refused, RefusedDeletion env ctx s.seenRemotePaths deletion) ∧
    ∃ recorded, (refused.map Prod.fst).Sublist recorded ∧ recorded.Perm s.metadataByPath.paths

theorem Posted.accounted (posted : Posted env ctx disk entries [] 0 [] s) : Accounted env ctx disk entries s := by
  obtain ⟨ledger, booked, complete⟩ := posted.ledger
  rw [List.append_nil] at complete
  refine ⟨posted.processed, ledger, [], booked, complete, ?_, _, List.nil_sublist _, List.Perm.refl _⟩
  intro deletion inside
  cases inside

theorem Accounted.withWorld (accounted : Accounted env ctx disk entries s) (w : World ρ) :
    Accounted env ctx disk entries (s.withWorld w) := by
  obtain ⟨ledger, refused, booked, rest⟩ := accounted.ledger
  exact ⟨accounted.processed, ledger, refused, booked.congr rfl rfl rfl rfl, rest⟩

theorem propagateDeletes_accounted :
    Triple (Posted env ctx disk entries [] 0 []) (propagateDeletes env ctx)
      (fun _ => Accounted env ctx disk entries) (fun _ _ => True) := by
  apply Triple.bind (Q := fun t s => Posted env ctx disk entries [] 0 [] s ∧
    t.seenRemotePaths = s.seenRemotePaths ∧ t.metadataByPath = s.metadataByPath)
  · exact Triple.get fun s posted => ⟨posted, rfl, rfl⟩
  · intro t
    apply Triple.bind (onWorld_answered fun _ w holds => ⟨holds.1.congr rfl rfl rfl rfl rfl, holds.2⟩)
    intro recorded
    apply Triple.weaken (P := fun s => ∃ refused,
      Deleting env ctx disk entries recorded t.seenRemotePaths recorded refused s)
    · have looped : Triple (fun s => ∃ refused,
            Deleting env ctx disk entries recorded t.seenRemotePaths recorded refused s)
          (Proc.forEach recorded fun path =>
            Proc.when (isDeletedLocally ctx t.seenRemotePaths path) (deleteRemote env path))
          (fun _ s => ∃ refused, Deleting env ctx disk entries recorded t.seenRemotePaths [] refused s)
          (fun _ _ => True) := by
        apply Triple.forEach (fun rest s => ∃ refused,
          Deleting env ctx disk entries recorded t.seenRemotePaths rest refused s)
        intro path rest _
        apply Triple.when
        · intro deleted
          exact deleteRemote_deleting deleted
        · intro _ s ⟨refused, deleting⟩
          exact ⟨refused, deleting.skip⟩
      apply looped.strengthen
      intro _ s ⟨refused, deleting⟩
      obtain ⟨ledger, booked, complete⟩ := deleting.posted.ledger
      have once := deleting.once
      rw [List.append_nil] at complete once
      exact ⟨deleting.posted.processed, ledger, refused, booked, complete,
        deleting.seenPaths ▸ deleting.refusals, recorded, once, deleting.listed⟩
    · intro s holds
      obtain ⟨⟨posted, seen, metadata⟩, w, answer⟩ := holds
      refine ⟨[], posted, seen.symm, metadata ▸ arrange_answered answer, ?_, List.Sublist.refl _⟩
      intro deletion inside
      cases inside

theorem finishMigration_accounted :
    Triple (Accounted env ctx disk entries) (finishMigration env ctx) (fun _ => Accounted env ctx disk entries)
      (fun _ _ => True) := by
  apply Triple.bind (Q := fun _ => Accounted env ctx disk entries)
  · exact Triple.get fun _ accounted => accounted
  · intro s
    apply Triple.when
    · intro _
      exact (onWorld_keeps fun _ w accounted => accounted.withWorld w).conseq (fun _ => id) (fun _ _ => id)
        fun _ _ _ => trivial
    · exact fun _ _ accounted => accounted

end Tail

section Scan

/-- Every entry before the rest is posted, or a request or a symlink was made for it. -/
structure ScanBalance (env : Env ρ) (ctx : PushContext) (disk : Tree) (entries rest : List PathBuf)
    (s : PushState ρ) : Prop where
  requests : ∀ request ∈ s.filePrepRequests, Asks ctx disk request
  owners : ∃ owners, List.Forall₂ (LinkOf ctx disk) s.pendingSymlinks owners ∧
    Balanced env ctx disk entries
      (s.filePrepRequests.map PushFilePrepRequest.entryPath ++ (owners ++ rest))
      (s.filePrepRequests.length + (s.pendingSymlinks.length + rest.length)) s

namespace ScanBalance

variable {rest : List PathBuf}

theorem withWorld (balance : ScanBalance env ctx disk entries rest s) (w : World ρ) :
    ScanBalance env ctx disk entries rest (s.withWorld w) := by
  obtain ⟨owners, owned, balanced⟩ := balance.owners
  exact ⟨balance.requests, owners, owned, balanced.withWorld w⟩

theorem saw (balance : ScanBalance env ctx disk entries rest s) (path : Text) :
    ScanBalance env ctx disk entries rest (s.saw path) := by
  obtain ⟨owners, owned, balanced⟩ := balance.owners
  exact ⟨balance.requests, owners, owned, balanced.posted.congr rfl rfl rfl rfl rfl, balanced.batch⟩

/-- The next entry is posted and completed. -/
theorem settle (balance : ScanBalance env ctx disk entries (entry :: rest) s)
    (batch : next.pendingBatch = s.pendingBatch) (requests : next.filePrepRequests = s.filePrepRequests)
    (links : next.pendingSymlinks = s.pendingSymlinks) (posts : ∀ others owed,
      Posted env ctx disk entries (entry :: others) owed [] s → Posted env ctx disk entries others owed [] next) :
    ScanBalance env ctx disk entries rest next.processed := by
  obtain ⟨owners, owned, balanced⟩ := balance.owners
  have front : (s.filePrepRequests.map PushFilePrepRequest.entryPath ++ (owners ++ entry :: rest)).Perm
      (entry :: (s.filePrepRequests.map PushFilePrepRequest.entryPath ++ (owners ++ rest))) :=
    (List.perm_middle.append_left _).trans List.perm_middle
  have posted := (balanced.perm front).post batch fun others => posts others _
  constructor
  · exact requests ▸ balance.requests
  · refine ⟨owners, links ▸ owned, ?_, posted.batch⟩
    apply Posted.completed
    show Posted env ctx disk entries (next.pendingBatch.files.map PendingPushFile.localPath ++
      (next.filePrepRequests.map PushFilePrepRequest.entryPath ++ (owners ++ rest)))
      (next.filePrepRequests.length + (next.pendingSymlinks.length + rest.length) + 1) [] next
    rw [requests, links]
    exact posted.posted

theorem failed {message : Text} (balance : ScanBalance env ctx disk entries (entry :: rest) s)
    (justified : Posting.Justified env ctx disk ⟨entry, .failed message⟩) :
    ScanBalance env ctx disk entries rest (s.failed message).processed :=
  balance.settle rfl rfl rfl fun _ _ posted => posted.failed justified

theorem skipped (balance : ScanBalance env ctx disk entries (entry :: rest) s) (counts : CountsOn disk entry) :
    ScanBalance env ctx disk entries rest s.skipped.processed :=
  balance.settle rfl rfl rfl fun _ _ posted => posted.skipped counts rfl rfl rfl rfl rfl

theorem passed (balance : ScanBalance env ctx disk entries (entry :: rest) s) {node : Node}
    (found : disk.metadata false entry = .ok node) (other : ¬ Counts entry node) :
    ScanBalance env ctx disk entries rest s.processed := by
  have justified : Posting.Justified env ctx disk ⟨entry, .passedOver⟩ := ⟨node, found, other⟩
  exact balance.settle rfl rfl rfl fun _ _ posted =>
    posted.add justified rfl rfl rfl (List.append_nil _).symm rfl

theorem requested {request : PushFilePrepRequest}
    (balance : ScanBalance env ctx disk entries (request.entryPath :: rest) s) (asks : Asks ctx disk request) :
    ScanBalance env ctx disk entries rest (s.requested request) := by
  obtain ⟨owners, owned, balanced⟩ := balance.owners
  constructor
  · intro other inside
    cases List.mem_append.mp inside with
    | inl earlier => exact balance.requests other earlier
    | inr new => exact List.mem_singleton.mp new ▸ asks
  · have moved : (s.filePrepRequests.map PushFilePrepRequest.entryPath ++ (owners ++ request.entryPath :: rest)).Perm
        ((s.requested request).filePrepRequests.map PushFilePrepRequest.entryPath ++ (owners ++ rest)) := by
      show List.Perm _ ((s.filePrepRequests ++ [request]).map PushFilePrepRequest.entryPath ++ (owners ++ rest))
      rw [List.map_append, List.append_assoc]
      exact List.perm_middle.append_left _
    have kept := balanced.perm moved
    refine ⟨owners, owned, ?_, kept.batch⟩
    have due : (s.requested request).filePrepRequests.length + (s.pendingSymlinks.length + rest.length) =
        s.filePrepRequests.length + (s.pendingSymlinks.length + (request.entryPath :: rest).length) := by
      simp [PushState.requested]
      omega
    show Posted env ctx disk entries _ ((s.requested request).filePrepRequests.length +
      (s.pendingSymlinks.length + rest.length)) [] _
    rw [due]
    exact kept.posted.congr rfl rfl rfl rfl rfl

theorem linked {link : PendingSymlink} (balance : ScanBalance env ctx disk entries (entry :: rest) s)
    (owner : LinkOf ctx disk link entry) : ScanBalance env ctx disk entries rest (s.queuedSymlink link) := by
  obtain ⟨owners, owned, balanced⟩ := balance.owners
  refine ⟨balance.requests, owners ++ [entry], List.rel_append owned (.cons owner .nil), ?_, balanced.batch⟩
  have due : s.filePrepRequests.length + ((s.queuedSymlink link).pendingSymlinks.length + rest.length) =
      s.filePrepRequests.length + (s.pendingSymlinks.length + (entry :: rest).length) := by
    simp [PushState.queuedSymlink]
    omega
  show Posted env ctx disk entries (s.pendingBatch.files.map PendingPushFile.localPath ++
    (s.filePrepRequests.map PushFilePrepRequest.entryPath ++ ((owners ++ [entry]) ++ rest)))
    (s.filePrepRequests.length + ((s.queuedSymlink link).pendingSymlinks.length + rest.length)) [] _
  rw [due, List.append_assoc owners, List.singleton_append]
  exact balanced.posted.congr rfl rfl rfl rfl rfl

end ScanBalance

/-- No file waits during the scan. -/
structure Scanning (env : Env ρ) (ctx : PushContext) (disk : Tree) (entries rest : List PathBuf) (s : PushState ρ) :
    Prop where
  batch : s.pendingBatch = .empty
  balance : ScanBalance env ctx disk entries rest s

section Entries

variable {rest : List PathBuf} {relative : List Component}

theorem Scanning.withWorld (scanning : Scanning env ctx disk entries rest s) (w : World ρ) :
    Scanning env ctx disk entries rest (s.withWorld w) :=
  ⟨scanning.batch, scanning.balance.withWorld w⟩

theorem failedOn_names (what : String) (error : Text) : NamesEntry env ctx entry (failedOn env what entry error) :=
  .inl ⟨text what, text ": " ++ error, by simp [failedOn]⟩

theorem failEntry_scanning {message : Text} (justified : Posting.Justified env ctx disk ⟨entry, .failed message⟩) :
    Triple (Scanning env ctx disk entries (entry :: rest)) (failEntry env ctx message)
      (fun _ => ScanBalance env ctx disk entries rest) (fun _ _ => True) :=
  failEntry_triple fun _ scanning => ⟨scanning.batch, scanning.balance.failed justified⟩

theorem skipEntry_scanning (counts : CountsOn disk entry) :
    Triple (Scanning env ctx disk entries (entry :: rest)) (skipEntry env ctx)
      (fun _ => ScanBalance env ctx disk entries rest) (fun _ _ => True) :=
  skipEntry_triple fun _ scanning => ⟨scanning.batch, scanning.balance.skipped counts⟩

theorem completeEntry_scanning {node : Node} (found : disk.metadata false entry = .ok node)
    (other : ¬ Counts entry node) :
    Triple (Scanning env ctx disk entries (entry :: rest)) (completeEntry env ctx.config)
      (fun _ => ScanBalance env ctx disk entries rest) (fun _ _ => True) :=
  completeEntry_triple fun _ scanning => ⟨scanning.batch, scanning.balance.passed found other⟩

theorem scanSymlink_scanning {modified : Int} (counts : CountsOn disk entry)
    (stripped : stripPrefix entry ctx.localBase = some relative) :
    Triple (Scanning env ctx disk entries (entry :: rest)) (scanSymlink env ctx entry (ctx.remotePathOf relative) modified)
      (fun _ => ScanBalance env ctx disk entries rest) (fun _ _ => True) := by
  have worldly : ∀ (s : PushState ρ) w, Scanning env ctx disk entries (entry :: rest) s →
      Scanning env ctx disk entries (entry :: rest) (s.withWorld w) := fun _ w scanning => scanning.withWorld w
  apply Triple.bind (Q := fun _ => Scanning env ctx disk entries (entry :: rest))
  · exact Triple.modify fun _ scanning => ⟨scanning.batch, scanning.balance.saw _⟩
  · intro _
    apply Triple.bind ((onWorld_answered worldly).strengthen fun _ _ holds => holds.1)
    intro answer
    cases answer with
    | error error => exact failEntry_scanning (failed_justified (failedOn_names _ _) counts)
    | ok found =>
        apply Triple.bind (Q := fun _ => Scanning env ctx disk entries (entry :: rest))
        · exact Triple.get fun _ scanning => scanning
        · intro t
          apply Triple.ite
          · intro _
            exact skipEntry_scanning counts
          · intro _
            apply Triple.bind ((onWorld_answered worldly).strengthen fun _ _ holds => holds.1)
            intro modifiedAt
            apply Triple.modify
            intro s scanning
            exact scanning.balance.linked ⟨counts, (entryRemotePath_eq stripped).symm⟩

theorem scanAccepted_scanning {fileSize : Nat} (counts : CountsOn disk entry)
    (stripped : stripPrefix entry ctx.localBase = some relative) :
    Triple (Scanning env ctx disk entries (entry :: rest)) (scanAccepted env ctx entry relative fileSize)
      (fun _ => ScanBalance env ctx disk entries rest) (fun _ _ => True) := by
  have worldly : ∀ (s : PushState ρ) w, Scanning env ctx disk entries (entry :: rest) s →
      Scanning env ctx disk entries (entry :: rest) (s.withWorld w) := fun _ w scanning => scanning.withWorld w
  apply Triple.bind (Q := fun _ => Scanning env ctx disk entries (entry :: rest))
  · exact Triple.modify fun _ scanning => ⟨scanning.batch, scanning.balance.saw _⟩
  · intro _
    apply Triple.bind ((onWorld_answered worldly).strengthen fun _ _ holds => holds.1)
    intro answer
    cases answer with
    | error error => exact failEntry_scanning (failed_justified (failedOn_names _ _) counts)
    | ok mtime =>
        apply Triple.bind (Q := fun _ => Scanning env ctx disk entries (entry :: rest))
        · exact Triple.get fun _ scanning => scanning
        · intro t
          apply Triple.ite
          · intro _
            exact skipEntry_scanning counts
          · intro _
            apply Triple.modify
            intro s scanning
            exact ScanBalance.requested scanning.balance ⟨counts, (entryRemotePath_eq stripped).symm⟩

theorem scanFile_scanning {content : Bytes} {time : Int} (found : disk.metadata false entry = .ok (.file content time))
    (stripped : stripPrefix entry ctx.localBase = some relative) :
    Triple (Scanning env ctx disk entries (entry :: rest)) (scanFile env ctx entry relative content.length)
      (fun _ => ScanBalance env ctx disk entries rest) (fun _ _ => True) := by
  unfold scanFile
  split
  · rename_i unreadable
    apply completeEntry_scanning found
    simp [Counts, unreadable]
  · rename_i filename readable
    have counts : CountsOn disk entry := ⟨_, found, by simp [Counts, readable]⟩
    split
    · exact scanAccepted_scanning counts stripped
    · exact skipEntry_scanning counts

/-- The scan of an entry posts it, or makes a request or a symlink for it. -/
theorem scanEntry_scanning (inside : ∃ relative, stripPrefix entry ctx.localBase = some relative) :
    Triple (fun s => s.world.disk = disk ∧ Scanning env ctx disk entries (entry :: rest) s) (scanEntry env ctx entry)
      (fun _ => ScanBalance env ctx disk entries rest) (fun _ _ => True) := by
  apply Triple.bind (Q := fun result s => Scanning env ctx disk entries (entry :: rest) s ∧
    ∀ node, result = .ok node → disk.metadata false entry = .ok node)
  · apply onWorld_triple
    intro s holds w same
    refine ⟨holds.2.withWorld _, ?_⟩
    intro node answer
    rw [← holds.1, ← same]
    unfold Env.faulty at answer
    split at answer
    · cases answer
    · exact answer
  · intro result
    apply Triple.assume (fun _ holds => holds.2)
    intro read
    apply Triple.weaken (P := Scanning env ctx disk entries (entry :: rest))
    · cases result with
      | error error =>
          exact failEntry_scanning ⟨failedOn_names _ _, .inr ⟨error.text, rfl⟩⟩
      | ok node =>
          have found := read node rfl
          obtain ⟨relative, stripped⟩ := inside
          dsimp only
          rw [stripped]
          cases node with
          | symlink target time => exact scanSymlink_scanning ⟨_, found, trivial⟩ stripped
          | file content time => exact scanFile_scanning found stripped
          | directory => exact completeEntry_scanning found id
          | special => exact completeEntry_scanning found id
    · exact fun _ holds => holds.1

end Entries

end Scan

section Run

variable {relationship : SyncRelationship} {others : List SyncRelationship} {mode : PushScanMode}

theorem pushScanned_accounted {requests : List PushFilePrepRequest} {links : List PendingSymlink}
    {owners : List PathBuf} (asks : ∀ request ∈ requests, Asks ctx disk request)
    (owned : List.Forall₂ (LinkOf ctx disk) links owners) (listed : s.filePrepRequests = requests)
    (linked : s.pendingSymlinks = links)
    (balanced : Balanced env ctx disk entries (requests.map PushFilePrepRequest.entryPath ++ owners)
      (requests.length + links.length) s) :
    Triple (· = s) (pushScanned env ctx) (fun _ => Accounted env ctx disk entries) (fun _ _ => True) := by
  have prepared : Triple (· = s) (pushPreparedFiles env ctx) (fun _ next => next.pendingSymlinks = links ∧
      Posted env ctx disk entries (owners ++ []) (links.length + 0) [] next) (fun _ _ => True) := by
    have kept : Triple (· = s) (pushPreparedFiles env ctx)
        (fun _ next => next.seenRemotePaths = s.seenRemotePaths ∧ next.pendingSymlinks = s.pendingSymlinks)
        (fun _ _ => True) := pushPreparedFiles_kept
    have posted : Triple (· = s) (pushPreparedFiles env ctx)
        (fun _ => Posted env ctx disk entries owners links.length []) (fun _ _ => True) :=
      (pushPreparedFiles_posted asks).weaken fun _ equal => equal ▸ ⟨listed, balanced⟩
    apply (Triple.both kept posted).conseq (fun _ => id)
    · intro _ next holds
      rw [List.append_nil]
      exact ⟨holds.1.2.trans linked, holds.2⟩
    · exact fun _ _ _ => trivial
  apply Triple.bind prepared
  intro _
  apply Triple.bind (pushPendingSymlinks_posted owned)
  intro _
  apply Triple.bind cleanupMigration_posted
  intro _
  apply Triple.bind (Q := fun _ => Accounted env ctx disk entries)
  · apply Triple.when
    · intro _
      exact propagateDeletes_accounted
    · exact fun _ _ posted => posted.accounted
  · intro _
    exact finishMigration_accounted

theorem ScanBalance.start (entries : List PathBuf) (records : Records) (w : World ρ) :
    ScanBalance env ctx disk entries entries (PushState.start records w) := by
  constructor
  · intro request inside
    cases inside
  · refine ⟨[], .nil, ⟨⟨[], ⟨?_, rfl, rfl, rfl, rfl⟩, List.Perm.refl _⟩, ?_⟩, ?_⟩
    · intro posting inside
      cases inside
    · simp [PushState.start]
    · intro file inside
      cases inside

/-- Whatever its entries are, a run that returns accounts for them. -/
theorem pushEntries_accounted {start : World ρ} {records : Records}
    (below : ∀ entry ∈ entries, ∃ relative, stripPrefix entry ctx.localBase = some relative) :
    Triple (· = PushState.start records start) (pushEntries env ctx entries)
      (fun _ => Accounted env ctx start.disk entries) (fun _ _ => True) := by
  let I (rest : List PathBuf) (s : PushState ρ) : Prop :=
    ScanInv env ctx start records entries rest s ∧ ScanBalance env ctx start.disk entries rest s
  have scanned : Triple (I entries) (Proc.forEach entries (scanEntry env ctx)) (fun _ => I []) (fun _ _ => True) := by
    apply Triple.forEach I
    intro entry rest suffix
    have inside : entry ∈ entries := suffix.subset List.mem_cons_self
    have settled : Triple (I (entry :: rest)) (scanEntry env ctx entry)
        (fun _ => ScanInv env ctx start records entries rest) (fun _ _ => True) :=
      (scanEntry_inv inside).weaken fun _ holds => holds.1
    have counted : Triple (I (entry :: rest)) (scanEntry env ctx entry)
        (fun _ => ScanBalance env ctx start.disk entries rest) (fun _ _ => True) :=
      (scanEntry_scanning (below entry inside)).weaken fun _ holds =>
        ⟨holds.1.still.disk, holds.1.batch, holds.2⟩
    exact (Triple.both settled counted).conseq (fun _ => id) (fun _ _ => id) fun _ _ _ => trivial
  apply Triple.bind (scanned.weaken ?_)
  · intro _
    apply Triple.fix
    intro s holds
    obtain ⟨owners, owned, balanced⟩ := holds.2.owners
    rw [List.append_nil] at balanced
    exact pushScanned_accounted holds.2.requests owned rfl rfl balanced
  · intro s equal
    rw [equal]
    exact ⟨ScanInv.start entries (Unmoved.refl start), ScanBalance.start entries _ _⟩

/-- A push has accounted for the entries of its walk. -/
def PushAccounted (env : Env ρ) (relationship : SyncRelationship) (others : List SyncRelationship)
    (mode : PushScanMode) (w : World ρ) (result : PushResult) (next : World ρ) : Prop :=
  ∃ config l entries start s, PushWalked env relationship others w config l entries start ∧
    pushEntries env (pushContext relationship others mode config w) entries (PushState.start w.store.files start) =
      (.ok (), s) ∧
    s.result = result ∧ s.world = next ∧
    Accounted env (pushContext relationship others mode config w) w.disk entries s

/-- Each entry of the walk of a push that returns is completed and counts once, unless it is passed over, and only
refused deletions count besides. -/
theorem pushSync_accounted (env : Env ρ) (relationship : SyncRelationship) (others : List SyncRelationship)
    (mode : PushScanMode) (w next : World ρ) (result : PushResult)
    (returned : pushSync env relationship others mode w = (.ok result, next)) :
    PushAccounted env relationship others mode w result next := by
  have run : Triple (· = w) (pushSync env relationship others mode)
      (PushAccounted env relationship others mode w) (fun _ _ => True) := by
    apply pushEntries_triple
    · exact fun _ _ _ => trivial
    · intro config l entries start walked t equal
      have below : ∀ entry ∈ entries, ∃ relative,
          stripPrefix entry (pushContext relationship others mode config w).localBase = some relative := by
        intro entry inside
        obtain ⟨names, -, walkable, rfl⟩ := walked.walked.sound entry inside
        exact ⟨_, stripPrefix_below relationship.localBase walkable.names⟩
      have outcome : Outcome (fun _ => Accounted env (pushContext relationship others mode config w) start.disk entries)
          (fun _ _ => True) (pushEntries env (pushContext relationship others mode config w) entries t) :=
        pushEntries_accounted below t equal
      rw [walked.begun.disk] at outcome
      subst equal
      rcases ended : pushEntries env (pushContext relationship others mode config w) entries
        (PushState.start w.store.files start) with ⟨answer, s⟩
      rw [ended] at outcome
      cases answer with
      | error error => trivial
      | ok _ => exact ⟨config, l, entries, start, s, walked, ended, rfl, rfl, outcome⟩
  have outcome := run w rfl
  rwa [returned] at outcome

end Run

def PushResult.counts (result : PushResult) : Nat × Nat × Nat :=
  (result.filesPushed, result.filesSkipped, result.filesFailed)

/-- One file is new, one is unchanged, and one name is not UTF-8. -/
def oddNames : World Shelf :=
  startWorld (Tree.ofList [([osText (text "home")], .directory),
      ([osText (text "home"), osText (text "new.txt")], .file [66] 6),
      ([osText (text "home"), osText (text "kept.txt")], .file [65] 5),
      ([osText (text "home"), [.invalid [0xFF]]], .file [67] 7)])
    [syncedRecord "/docs/kept.txt" [65] 5] (Shelf.holding [("/docs/kept.txt", .file [65])])

theorem returned_of_counts {outcome : Except ClientError PushResult × World ρ} {counts : Nat × Nat × Nat}
    (counted : outcome.1.toOption.map PushResult.counts = some counts) :
    ∃ result, outcome = (.ok result, outcome.2) ∧ result.counts = counts := by
  rcases outcome with ⟨answer, next⟩
  cases answer with
  | error error => cases counted
  | ok result => exact ⟨result, rfl, Option.some.inj counted⟩

theorem pushSync_accounted_oddNames :
    ∃ result next, pushSync shelfEnv (docsRelationship none) [] .lite oddNames = (.ok result, next) ∧
      result.counts = (1, 1, 0) ∧ PushAccounted shelfEnv (docsRelationship none) [] .lite oddNames result next := by
  have ran : (pushSync shelfEnv (docsRelationship none) [] .lite oddNames).1.toOption.map PushResult.counts =
      some (1, 1, 0) := by decide +kernel
  obtain ⟨result, returned, counted⟩ := returned_of_counts ran
  exact ⟨result, _, returned, counted, pushSync_accounted _ _ _ _ _ _ _ returned⟩

def oddLink : World Shelf :=
  startWorld (Tree.ofList [([osText (text "home")], .directory),
      ([osText (text "home"), [.invalid [0xFF]]], .symlink (osText (text "new.txt")) 7)]) [] (Shelf.holding [])

/-- A symlink counts although its name is not UTF-8. -/
theorem pushSync_counts_oddLink :
    (walkdir shelfEnv (docsRelationship none).localBase [] oddLink).1 =
        .ok [below (docsRelationship none).localBase [[.invalid [0xFF]]]] ∧
      (fileName (below (docsRelationship none).localBase [[.invalid [0xFF]]])).bind toStr? = none ∧
      (pushSync shelfEnv (docsRelationship none) [] .lite oddLink).1.toOption.map PushResult.counts =
        some (1, 0, 0) := by
  exact ⟨by rfl, by decide +kernel, by decide +kernel⟩

end AeordbSync

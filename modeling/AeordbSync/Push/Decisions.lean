import AeordbSync.Library.Json
import AeordbSync.Library.Words
import AeordbSync.Push.Flush
import AeordbSync.Reference

namespace AeordbSync
open Characters OsPath FileSystem Effect

variable {ρ : Type}

/-- What the push does about a file that could not be uploaded. -/
inductive FailureDecision where
  | deferred
  | aborted
  | forbidden
  | failed
  deriving DecidableEq

def failureDecision (remotePath : Text) (error : ClientError) : FailureDecision :=
  if isTransientPushError error = true then .deferred
  else if isUnrecoverablePushError error = true then .aborted
  else if isForbidden remotePath error = true then .forbidden
  else .failed

/-- The first answer that applies decides. -/
def FailureDecision.of (defers unauthorized refused : Bool) : FailureDecision :=
  if defers = true then .deferred
  else if unauthorized = true then .aborted
  else if refused = true then .forbidden
  else .failed

theorem FailureDecision.of_eq_iff : ∀ defers unauthorized refused defers' unauthorized' refused',
    of defers unauthorized refused = of defers' unauthorized' refused' ↔
      defers = defers' ∧ (defers = false → unauthorized = unauthorized') ∧
        (defers = false → unauthorized = false → refused = refused') := by
  decide

def FailureDecision.aborts : FailureDecision → Bool
  | deferred | aborted => true
  | forbidden | failed => false

/-- A failure of an upload is handled by its decision. -/
theorem recordPushFailure_decides (env : Env ρ) (file : PendingPushFile) (error : ClientError) :
    recordPushFailure env file error = (do
      onWorld (note (.uploadFailed file.remotePath error))
      match failureDecision file.remotePath error with
      | .deferred => Proc.throw error
      | .aborted => Proc.throw (.server (text "push aborted after unrecoverable remote auth/rate-limit error at " ++
          file.remotePath ++ text ": " ++ error.display))
      | .forbidden => do
          Proc.modify (PushState.failed (failedToUpload file.remotePath error))
          Proc.when true (suppressRetry env file)
      | .failed => do
          Proc.modify (PushState.failed (failedToUpload file.remotePath error))
          Proc.when false (suppressRetry env file)) := by
  unfold recordPushFailure failureDecision
  by_cases transient : isTransientPushError error = true
  · rw [if_pos transient, if_pos transient]
  · rw [if_neg transient, if_neg transient]
    by_cases unrecoverable : isUnrecoverablePushError error = true
    · rw [if_pos unrecoverable, if_pos unrecoverable]
    · rw [if_neg unrecoverable, if_neg unrecoverable]
      cases forbidden : isForbidden file.remotePath error <;> rfl

/-- A batch that failed is given up, or its files are tried one by one. -/
theorem pushFiles_decides (env : Env ρ) (config : BlobConfig) (files : List PendingPushFile) (remotePath : Text) :
    pushFiles env config files = (do
      match ← Proc.attempt (onWorld (pushBatchViaChunks env config files)) with
      | .ok () =>
          let metas ← onWorld (makeFileMetas env files)
          Proc.modify (PushState.uploaded files metas)
          flushPendingMetadataUpdates env
      | .error error => match failureDecision remotePath error with
          | .deferred => Proc.throw error
          | .aborted => Proc.throw (.server (text "push aborted after unrecoverable remote auth/rate-limit error: " ++
              error.display))
          | .forbidden => afterRefusedBatch env config files
          | .failed => afterRefusedBatch env config files) := by
  unfold pushFiles failureDecision
  refine congrArg (_ >>= ·) (funext fun outcome => ?_)
  cases outcome with
  | ok _ => rfl
  | error error =>
      dsimp only
      by_cases transient : isTransientPushError error = true
      · rw [if_pos transient, if_pos transient]
      · rw [if_neg transient, if_neg transient]
        by_cases unrecoverable : isUnrecoverablePushError error = true
        · rw [if_pos unrecoverable, if_pos unrecoverable]
        · rw [if_neg unrecoverable, if_neg unrecoverable]
          cases forbidden : isForbidden remotePath error <;> rfl

/-- The names of a file. Every remote path starts with a separator. -/
structure FileNames where
  localPath : PathBuf
  remotePath : Text
  rooted : remotePath.head? = some '/'

def PendingPushFile.called (file : PendingPushFile) (names : FileNames) : PendingPushFile :=
  { file with
    localPath := names.localPath
    remotePath := names.remotePath }

/-- The requests of an upload. -/
inductive EngineCall where
  | check
  | commit
  | chunks
  | chunksRetry
  | chunk (hash : Text)
  | put

/-- What the messages name as the target of the request. -/
def EngineCall.path (remotePath : Text) : EngineCall → Text
  | check => text "/blobs/check"
  | commit => text "/blobs/commit"
  | chunks => text "/blobs/chunks"
  | chunksRetry => text "/blobs/chunks retry"
  | chunk hash => text "/blobs/chunks/" ++ hash
  | put => remotePath

inductive SendFault where
  | connect
  | request
  | other
  deriving DecidableEq

def classifyReqwestSendError (fault : SendFault) (shown remotePath : Text) : ClientError :=
  match fault with
  | .connect => .upstreamUnreachable (text "couldn't reach engine for " ++ remotePath ++ text ": " ++ shown)
  | .request => .upstreamProtocol (text "malformed request to engine for " ++ remotePath ++ text ": " ++ shown)
  | .other =>
      .upstreamUnreachable (text "transport error talking to engine for " ++ remotePath ++ text ": " ++ shown)

variable (parse : Text → Option Json)

def upstreamBodyMessage (body : Text) : Text :=
  match parse body with
  | none => body.take 200
  | some value =>
      let message := ((value.get (text "error")).bind Json.string?).getD (body.take 200)
      match value.get (text "retryable") with
      | some (.bool true) => message ++ text " (retryable)"
      | _ => message

def classifyUpstreamStatus (status : Nat) (body remotePath : Text) : ClientError :=
  if 400 ≤ status ∧ status < 500 then
    .upstreamRejected status (text "engine refused " ++ remotePath ++ text ": " ++ upstreamBodyMessage parse body)
  else
    .upstreamServer status (text "engine failed for " ++ remotePath ++ text ": " ++ upstreamBodyMessage parse body)

/-- How an upload can fail, without the names. What the HTTP library shows of a request may have its address. -/
inductive UploadFailure where
  | opening (error : IoError)
  | reading (error : IoError)
  | changed (size : Nat) (hash : Text)
  | access (error : IoError)
  | chunkChanged (offset len : Nat) (hash actual : Text)
  | stopped (message : Text)
  | unsent (call : EngineCall) (fault : SendFault) (shown : Text → Text)
  | answered (call : EngineCall) (status : Nat) (body : Text)
  | unparseable (message : Text)

namespace UploadFailure

variable (env : Env ρ)

/-- The error that the failure becomes for a file. -/
def error (file : PendingPushFile) : UploadFailure → ClientError
  | opening error => otherIoError (failedToOpen env file.localPath error)
  | reading error => otherIoError (failedToRead env file.localPath error)
  | changed size hash => otherIoError (fileChangedWhilePreparing env file size hash)
  | access error => .io error
  | chunkChanged offset len hash actual =>
      otherIoError (chunkChangedWhileReading env ⟨hash, file.localPath, offset, len⟩ actual)
  | stopped message => otherIoError message
  | unsent call fault shown =>
      classifyReqwestSendError fault (shown (call.path file.remotePath)) (call.path file.remotePath)
  | answered call status body => classifyUpstreamStatus parse status body (call.path file.remotePath)
  | unparseable message => .upstreamProtocol message

/-- The words before the first name of the error. -/
def lead : UploadFailure → Text
  | opening _ => text "io error: " ++ text "failed to open "
  | reading _ => text "io error: " ++ text "failed to read "
  | changed _ _ => text "io error: " ++ text "file changed while preparing upload for "
  | access error => text "io error: " ++ error.text
  | chunkChanged _ _ _ _ => text "io error: " ++ text "file changed while reading chunk "
  | stopped message => text "io error: " ++ message
  | unsent _ .connect _ => text "upstream unreachable: " ++ text "couldn't reach engine for "
  | unsent _ .request _ => text "upstream protocol error: " ++ text "malformed request to engine for "
  | unsent _ .other _ => text "upstream unreachable: " ++ text "transport error talking to engine for "
  | answered _ status _ =>
      if 400 ≤ status ∧ status < 500 then
        text "upstream rejected (HTTP " ++ decimal status ++ text "): " ++ text "engine refused "
      else text "upstream server error (HTTP " ++ decimal status ++ text "): " ++ text "engine failed for "
  | unparseable message => text "upstream protocol error: " ++ message

/-- What the error says of the names. -/
def part (names : FileNames) : UploadFailure → Text
  | opening _ | reading _ | changed _ _ | chunkChanged _ _ _ _ => env.debugPath names.localPath
  | unsent call _ shown => call.path names.remotePath ++ (text ": " ++ shown (call.path names.remotePath))
  | answered call _ _ => call.path names.remotePath
  | access _ | stopped _ | unparseable _ => []

/-- The words behind the names. -/
def tail (file : PendingPushFile) : UploadFailure → Text
  | opening error | reading error => text ": " ++ error.text
  | changed size hash => text ": expected size/hash " ++ decimal file.fileSize ++ text ":" ++ file.contentHash ++
      text ", got " ++ decimal size ++ text ":" ++ hash
  | chunkChanged offset _ hash actual => text " at offset " ++ decimal offset ++ text ": expected " ++ hash ++
      text ", got " ++ actual
  | answered _ _ body => text ": " ++ upstreamBodyMessage parse body
  | access _ | stopped _ | unsent _ _ _ | unparseable _ => []

variable {env} {parse} {file : PendingPushFile} {names : FileNames} {failure : UploadFailure}

theorem display_error : (failure.error parse env (file.called names)).display =
    failure.lead ++ (failure.part env names ++ failure.tail parse file) := by
  cases failure with
  | opening cause | reading cause | changed size hash | chunkChanged offset len hash actual =>
      simp only [UploadFailure.error, otherIoError, ClientError.display, failedToOpen, failedToRead,
        fileChangedWhilePreparing, chunkChangedWhileReading, PendingPushFile.called, lead, part, tail,
        List.append_assoc]
  | access cause | stopped message | unparseable message =>
      simp only [UploadFailure.error, otherIoError, ClientError.display, lead, part, tail, List.append_nil]
  | unsent call fault shown =>
      cases fault <;>
        simp only [UploadFailure.error, classifyReqwestSendError, ClientError.display, PendingPushFile.called, lead, part,
          tail, List.append_assoc, List.append_nil]
  | answered call status body =>
      by_cases refused : 400 ≤ status ∧ status < 500
      · simp only [UploadFailure.error, classifyUpstreamStatus, if_pos refused, ClientError.display,
          PendingPushFile.called, lead, part, tail, List.append_assoc]
      · simp only [UploadFailure.error, classifyUpstreamStatus, if_neg refused, ClientError.display,
          PendingPushFile.called, lead, part, tail, List.append_assoc]

/-- A name starts with a separator or a quote. -/
theorem head_part (quoted : ∀ path, ∃ inner, env.debugPath path = '"' :: (inner ++ ['"'])) {c : Char}
    (first : (failure.part env names).head? = some c) : c = '/' ∨ c = '"' := by
  have quote : ∀ path c, (env.debugPath path).head? = some c → c = '/' ∨ c = '"' := by
    intro path c first
    obtain ⟨inner, equal⟩ := quoted path
    rw [equal] at first
    exact Or.inr (Option.some.inj first).symm
  have slash : ∀ call : EngineCall, (call.path names.remotePath).head? = some '/' := by
    intro call
    cases call with
    | put => exact names.rooted
    | check | commit | chunks | chunksRetry | chunk hash => rfl
  cases failure with
  | opening cause | reading cause | changed size hash | chunkChanged offset len hash actual => exact quote _ c first
  | access cause | stopped message | unparseable message => cases first
  | unsent call fault shown =>
      unfold part at first
      rw [List.head?_append, slash] at first
      exact Or.inl (Option.some.inj first).symm
  | answered call status body =>
      unfold part at first
      rw [slash] at first
      exact Or.inl (Option.some.inj first).symm

/-- Behind a name there is nothing, a colon, or the name has a quote at its end. -/
theorem tail_part (quoted : ∀ path, ∃ inner, env.debugPath path = '"' :: (inner ++ ['"'])) :
    failure.tail parse file = [] ∨ (failure.tail parse file).head? = some ':' ∨
      (failure.part env names).getLast? = some '"' := by
  have quote : ∀ path, (env.debugPath path).getLast? = some '"' := by
    intro path
    obtain ⟨inner, equal⟩ := quoted path
    rw [equal, ← List.cons_append, List.getLast?_concat]
  cases failure with
  | opening cause | reading cause | changed size hash | chunkChanged offset len hash actual =>
      exact Or.inr (Or.inr (quote _))
  | access cause | stopped message | unparseable message | unsent call fault shown => exact Or.inl rfl
  | answered call status body => exact Or.inr (Or.inl rfl)

/-- A word in which a name cannot start or end. -/
def Plain (word : Text) : Prop := '/' ∉ word ∧ '"' ∉ word ∧ ':' ∉ word

instance (word : Text) : Decidable (Plain word) := inferInstanceAs (Decidable (_ ∧ _))

/-- A change of the letters that leaves the separators alone moves no border of a name. -/
theorem apart_of_plain {word : Text} (plain : Plain word) {f : Char → Char} (fixed : f '/' = '/' ∧ f '"' = '"' ∧ f ':' = ':') {c : Char}
    (border : c = '/' ∨ c = '"' ∨ c = ':') : f c ∉ word := by
  rcases border with rfl | rfl | rfl
  · rw [fixed.1]
    exact plain.1
  · rw [fixed.2.1]
    exact plain.2.1
  · rw [fixed.2.2]
    exact plain.2.2

/-- A word is found in what the error says for itself, or in what it says of the names. -/
theorem contains_error (quoted : ∀ path, ∃ inner, env.debugPath path = '"' :: (inner ++ ['"'])) {word : Text}
    (plain : Plain word) {f : Char → Char} (fixed : f '/' = '/' ∧ f '"' = '"' ∧ f ':' = ':') (front : Text) :
    contains ((front ++ (failure.error parse env (file.called names)).display).map f) word =
      (contains ((front ++ failure.lead).map f) word ||
        (contains ((failure.part env names).map f) word || contains ((failure.tail parse file).map f) word)) := by
  have behind := @tail_part _ parse env file names failure quoted
  have joint : contains ((failure.part env names).map f ++ (failure.tail parse file).map f) word =
      (contains ((failure.part env names).map f) word || contains ((failure.tail parse file).map f) word) := by
    rcases behind with none | colon | quote
    · rw [none]
      exact contains_append_of_first fun c first => by cases first
    · refine contains_append_of_first fun c first => ?_
      rw [List.head?_map, colon] at first
      obtain rfl := Option.some.inj first
      exact apart_of_plain plain fixed (Or.inr (Or.inr rfl))
    · refine contains_append_of_last fun c last => ?_
      rw [List.getLast?_map, quote] at last
      obtain rfl := Option.some.inj last
      exact apart_of_plain plain fixed (Or.inr (Or.inl rfl))
  have assembled : (front ++ (failure.error parse env (file.called names)).display).map f =
      (front ++ failure.lead).map f ++ ((failure.part env names).map f ++ (failure.tail parse file).map f) := by
    rw [display_error]
    simp only [List.map_append, List.append_assoc]
  rw [assembled, ← joint]
  refine contains_append_of_first fun c first => ?_
  rw [← List.map_append, List.head?_map, Option.map_eq_some_iff] at first
  obtain ⟨c, first, rfl⟩ := first
  refine apart_of_plain plain fixed ?_
  cases named : failure.part env names with
  | cons d rest =>
      rw [named] at first
      have start : (failure.part env names).head? = some c := by
        rw [named]
        exact first
      exact (head_part quoted start).imp_right Or.inl
  | nil =>
      rw [named, List.nil_append] at first
      rcases behind with none | colon | quote
      · rw [none] at first
        cases first
      · rw [colon] at first
        exact Or.inr (Or.inr (Option.some.inj first).symm)
      · rw [named] at quote
        cases quote

variable (env) (parse) (file) (names) (failure)

/-- The names may be looked at only in the lower case. -/
def mentions (word : Text) : Bool :=
  contains (toAsciiLowercase failure.lead) word || (contains (toAsciiLowercase (failure.part env names)) word ||
    contains (toAsciiLowercase (failure.tail parse file)) word)

def status? : UploadFailure → Option Nat
  | answered _ status _ => some status
  | _ => none

/-- The engine cannot be reached for now, or it says so, where the request counts to its words. -/
def defers : Bool :=
  match failure with
  | unsent _ fault _ => decide (fault ≠ .request)
  | answered call status body => status == 502 || status == 503 || status == 504 ||
      (status == 429 && (ClientError.mentionsRetry (text "engine refused " ++ call.path names.remotePath) ||
        ClientError.mentionsRetry (text ": " ++ upstreamBodyMessage parse body)))
  | _ => false

def unauthorized : Bool :=
  failure.status? == some 401 || (failure.mentions parse env file names (text "401 unauthorized") ||
    failure.mentions parse env file names (text "invalid or expired token") ||
    (failure.mentions parse env file names (text "429 too many requests") &&
      (failure.mentions parse env file names (text "token exchange") || failure.mentions parse env file names (text "auth"))))

def refused : Bool :=
  (contains names.remotePath (text "403 Forbidden") || (contains (text ": " ++ failure.lead) (text "403 Forbidden") ||
    (contains (failure.part env names) (text "403 Forbidden") ||
      contains (failure.tail parse file) (text "403 Forbidden")))) || failure.status? == some 403

variable {env} {parse} {file} {names} {failure}

theorem contains_display (quoted : ∀ path, ∃ inner, env.debugPath path = '"' :: (inner ++ ['"'])) {word : Text}
    (plain : Plain word) :
    contains (toAsciiLowercase (failure.error parse env (file.called names)).display) word =
      failure.mentions parse env file names word :=
  contains_error quoted plain ⟨rfl, rfl, rfl⟩ []

theorem mentionsRetry_append (front : Text) {back : Text} (colon : back.head? = some ':') :
    ClientError.mentionsRetry (front ++ back) =
      (ClientError.mentionsRetry front || ClientError.mentionsRetry back) := by
  have split : ∀ word, ':' ∉ word → contains (toAsciiLowercase (front ++ back)) word =
      (contains (toAsciiLowercase front) word || contains (toAsciiLowercase back) word) := by
    intro word free
    rw [toAsciiLowercase_append]
    refine contains_append_of_first fun c first => ?_
    unfold toAsciiLowercase at first
    rw [List.head?_map, colon] at first
    obtain rfl := Option.some.inj first
    exact free
  unfold ClientError.mentionsRetry
  dsimp only
  rw [split _ (by decide), split _ (by decide), split _ (by decide), split _ (by decide)]
  simp only [Bool.or_assoc, Bool.or_left_comm]

section

variable {call : EngineCall} {status : Nat} {body : Text}

theorem error_rejected (rejected : 400 ≤ status ∧ status < 500) :
    (answered call status body).error parse env (file.called names) = .upstreamRejected status
      (text "engine refused " ++ call.path names.remotePath ++ text ": " ++ upstreamBodyMessage parse body) :=
  if_pos rejected

theorem error_server (unhappy : ¬ (400 ≤ status ∧ status < 500)) :
    (answered call status body).error parse env (file.called names) = .upstreamServer status
      (text "engine failed for " ++ call.path names.remotePath ++ text ": " ++ upstreamBodyMessage parse body) :=
  if_neg unhappy

end

theorem isTransientUpstream_rejected (status : Nat) (message : Text) :
    (ClientError.upstreamRejected status message).isTransientUpstream =
      (status == 429 && ClientError.mentionsRetry message) := by
  by_cases busy : status = 429
  · subst busy
    rfl
  · rw [beq_false_of_ne busy]
    unfold ClientError.isTransientUpstream
    split <;> simp_all

theorem isTransient_error :
    isTransientPushError (failure.error parse env (file.called names)) = failure.defers parse names := by
  cases failure with
  | opening cause | reading cause | changed size hash | access cause | chunkChanged offset len hash actual
  | stopped message | unparseable message => rfl
  | unsent call fault shown => cases fault <;> rfl
  | answered call status body =>
      unfold isTransientPushError
      show _ = (status == 502 || status == 503 || status == 504 ||
        (status == 429 && (ClientError.mentionsRetry (text "engine refused " ++ call.path names.remotePath) ||
          ClientError.mentionsRetry (text ": " ++ upstreamBodyMessage parse body))))
      by_cases rejected : 400 ≤ status ∧ status < 500
      · rw [error_rejected rejected, isTransientUpstream_rejected, List.append_assoc, mentionsRetry_append _ rfl,
          beq_false_of_ne (show status ≠ 502 by omega), beq_false_of_ne (show status ≠ 503 by omega),
          beq_false_of_ne (show status ≠ 504 by omega)]
        rfl
      · rw [beq_false_of_ne (show status ≠ 429 by omega), Bool.false_and, Bool.or_false, error_server rejected]
        rfl

/-- An answer with the status 401 is one that the engine has rejected. -/
def answeredUnauthorized : ClientError → Bool
  | .upstreamRejected 401 _ => true
  | _ => false

theorem isUnrecoverablePushError_eq (error : ClientError) :
    isUnrecoverablePushError error =
      (!isTransientPushError error && (answeredUnauthorized error || isUnrecoverablePushErrorMessage error.display)) := by
  unfold isUnrecoverablePushError
  cases isTransientPushError error with
  | true => rfl
  | false =>
      rw [if_neg Bool.false_ne_true]
      cases error with
      | upstreamRejected status message =>
          by_cases unauthorized : status = 401
          · subst unauthorized
            rfl
          · unfold answeredUnauthorized
            split <;> simp_all
      | _ => rfl

theorem answeredUnauthorized_error :
    answeredUnauthorized (failure.error parse env (file.called names)) = (failure.status? == some 401) := by
  cases failure with
  | opening cause | reading cause | changed size hash | access cause | chunkChanged offset len hash actual
  | stopped message | unparseable message => rfl
  | unsent call fault shown => cases fault <;> rfl
  | answered call status body =>
      by_cases unauthorized : status = 401
      · subst unauthorized
        rfl
      · rw [show status? (answered call status body) = some status from rfl,
          beq_false_of_ne fun equal => unauthorized (Option.some.inj equal)]
        by_cases rejected : 400 ≤ status ∧ status < 500
        · rw [error_rejected rejected]
          unfold answeredUnauthorized
          split <;> simp_all
        · rw [error_server rejected]
          rfl

theorem isEngineForbidden_error :
    isEngineForbidden (failure.error parse env (file.called names)) = (failure.status? == some 403) := by
  cases failure with
  | opening cause | reading cause | changed size hash | access cause | chunkChanged offset len hash actual
  | stopped message | unparseable message => rfl
  | unsent call fault shown => cases fault <;> rfl
  | answered call status body =>
      by_cases forbidden : status = 403
      · subst forbidden
        rfl
      · rw [show status? (answered call status body) = some status from rfl,
          beq_false_of_ne fun equal => forbidden (Option.some.inj equal)]
        by_cases rejected : 400 ≤ status ∧ status < 500
        · rw [error_rejected rejected]
          unfold isEngineForbidden
          split <;> simp_all
        · rw [error_server rejected]
          rfl

theorem isUnrecoverable_error (quoted : ∀ path, ∃ inner, env.debugPath path = '"' :: (inner ++ ['"'])) :
    isUnrecoverablePushError (failure.error parse env (file.called names)) =
      (!failure.defers parse names && failure.unauthorized parse env file names) := by
  rw [isUnrecoverablePushError_eq, isTransient_error, answeredUnauthorized_error]
  unfold isUnrecoverablePushErrorMessage unauthorized
  dsimp only
  rw [contains_display quoted (by decide), contains_display quoted (by decide), contains_display quoted (by decide),
    contains_display quoted (by decide), contains_display quoted (by decide)]

theorem isForbidden_error (quoted : ∀ path, ∃ inner, env.debugPath path = '"' :: (inner ++ ['"'])) :
    isForbidden names.remotePath (failure.error parse env (file.called names)) =
      failure.refused parse env file names := by
  have plain : Plain (text "403 Forbidden") := by decide
  have whole := @contains_error _ parse env file names failure quoted _ plain id ⟨rfl, rfl, rfl⟩ (text ": ")
  simp only [List.map_id_fun, id] at whole
  have first : contains (text "failed to upload " ++ names.remotePath) (text "403 Forbidden") =
      contains names.remotePath (text "403 Forbidden") := by
    rw [contains_append_of_first fun c first => ?_, show contains (text "failed to upload ") _ = false by decide,
      Bool.false_or]
    rw [names.rooted] at first
    obtain rfl := Option.some.inj first
    exact plain.1
  unfold isForbidden refused failedToUpload
  rw [isEngineForbidden_error, List.append_assoc, contains_append_of_first fun c first => ?_, first, whole]
  obtain rfl := Option.some.inj first
  exact plain.2.2

theorem failureDecision_error (quoted : ∀ path, ∃ inner, env.debugPath path = '"' :: (inner ++ ['"'])) :
    failureDecision names.remotePath (failure.error parse env (file.called names)) =
      .of (failure.defers parse names) (failure.unauthorized parse env file names)
        (failure.refused parse env file names) := by
  unfold failureDecision
  rw [isTransient_error, isUnrecoverable_error quoted, isForbidden_error quoted]
  cases failure.defers parse names <;> rfl

end UploadFailure

/-- As far as the failure leaves the decision open, the code finds the same ones of its words with both names. -/
structure SameWords (parse : Text → Option Json) (env : Env ρ) (file : PendingPushFile) (failure : UploadFailure)
    (first second : FileNames) : Prop where
  defers : failure.defers parse first = failure.defers parse second
  unauthorized : failure.defers parse first = false →
    failure.unauthorized parse env file first = failure.unauthorized parse env file second
  refused : failure.defers parse first = false → failure.unauthorized parse env file first = false →
    failure.refused parse env file first = failure.refused parse env file second

/-- The names have none of the words. -/
structure Silent (env : Env ρ) (failure : UploadFailure) (names : FileNames) : Prop where
  retry : ClientError.mentionsRetry (text "engine refused " ++ names.remotePath) = false
  authorization : ∀ word ∈ ["401 unauthorized", "invalid or expired token", "429 too many requests", "token exchange",
    "auth"], contains (toAsciiLowercase (failure.part env names)) (text word) = false
  path : contains names.remotePath (text "403 Forbidden") = false
  part : contains (failure.part env names) (text "403 Forbidden") = false

section

variable {parse : Text → Option Json} {env : Env ρ} {file : PendingPushFile} {failure : UploadFailure}
  {first second : FileNames}

theorem Silent.defers (left : Silent env failure first) (right : Silent env failure second) :
    failure.defers parse first = failure.defers parse second := by
  cases failure with
  | opening cause | reading cause | changed size hash | access cause | chunkChanged offset len hash actual
  | stopped message | unparseable message | unsent call fault shown => rfl
  | answered call status body =>
      have same : ClientError.mentionsRetry (text "engine refused " ++ call.path first.remotePath) =
          ClientError.mentionsRetry (text "engine refused " ++ call.path second.remotePath) := by
        cases call with
        | put => exact left.retry.trans right.retry.symm
        | check | commit | chunks | chunksRetry | chunk hash => rfl
      unfold UploadFailure.defers
      dsimp only
      rw [same]

theorem Silent.mentions (left : Silent env failure first) (right : Silent env failure second) {word : String}
    (inside : word ∈ ["401 unauthorized", "invalid or expired token", "429 too many requests", "token exchange",
      "auth"]) :
    failure.mentions parse env file first (text word) = failure.mentions parse env file second (text word) := by
  unfold UploadFailure.mentions
  rw [left.authorization word inside, right.authorization word inside]

theorem failureDecision_same_iff (quoted : ∀ path, ∃ inner, env.debugPath path = '"' :: (inner ++ ['"'])) :
    failureDecision first.remotePath (failure.error parse env (file.called first)) =
        failureDecision second.remotePath (failure.error parse env (file.called second)) ↔
      SameWords parse env file failure first second := by
  rw [UploadFailure.failureDecision_error quoted, UploadFailure.failureDecision_error quoted,
    FailureDecision.of_eq_iff]
  exact ⟨fun ⟨defers, unauthorized, refused⟩ => ⟨defers, unauthorized, refused⟩,
    fun ⟨defers, unauthorized, refused⟩ => ⟨defers, unauthorized, refused⟩⟩

end

/-- A batch that could not be uploaded, with the file that its failure names, and the files that then fail alone. -/
structure FailedBatch (ι : Type) where
  owner : ι
  failure : UploadFailure
  alone : List (ι × UploadFailure)

section

variable {ι : Type}

/-- The decisions about the files that fail alone, and whether the push goes on. -/
def decideAlone (decision : ι → UploadFailure → FailureDecision) :
    List (ι × UploadFailure) → List (ι × FailureDecision) × Bool
  | [] => ([], true)
  | (i, failure) :: rest =>
      if (decision i failure).aborts = true then ([(i, decision i failure)], false)
      else
        let later := decideAlone decision rest
        ((i, decision i failure) :: later.1, later.2)

/-- The decisions of a push about the batches that fail. -/
def decideBatches (decision : ι → UploadFailure → FailureDecision) : List (FailedBatch ι) → List (ι × FailureDecision)
  | [] => []
  | batch :: rest =>
      if (decision batch.owner batch.failure).aborts = true then
        [(batch.owner, decision batch.owner batch.failure)]
      else
        let alone := decideAlone decision batch.alone
        if alone.2 = true then alone.1 ++ decideBatches decision rest else alone.1

variable {first second : ι → UploadFailure → FailureDecision}

theorem decideAlone_congr {failures : List (ι × UploadFailure)}
    (same : ∀ pair ∈ failures, first pair.1 pair.2 = second pair.1 pair.2) :
    decideAlone first failures = decideAlone second failures := by
  induction failures with
  | nil => rfl
  | cons pair rest ih =>
      obtain ⟨i, failure⟩ := pair
      have here := same _ (List.mem_cons_self ..)
      have later := ih fun pair inside => same pair (List.mem_cons_of_mem _ inside)
      unfold decideAlone
      rw [later]
      dsimp only at here ⊢
      rw [here]

theorem decideBatches_congr {batches : List (FailedBatch ι)}
    (same : ∀ batch ∈ batches, ∀ pair ∈ (batch.owner, batch.failure) :: batch.alone,
      first pair.1 pair.2 = second pair.1 pair.2) :
    decideBatches first batches = decideBatches second batches := by
  induction batches with
  | nil => rfl
  | cons batch rest ih =>
      have here := same batch (List.mem_cons_self ..) _ (List.mem_cons_self ..)
      have alone := decideAlone_congr fun pair inside =>
        same batch (List.mem_cons_self ..) pair (List.mem_cons_of_mem _ inside)
      have later := ih fun batch inside => same batch (List.mem_cons_of_mem _ inside)
      unfold decideBatches
      rw [alone, later]
      dsimp only at here ⊢
      rw [here]

end

/-- The decision about a failure is the same for two names exactly when the code finds the same words with them; and a
push takes the same decisions in two runs where this is so of every failure. -/
theorem failureDecision_renamed {ι : Type} (parse : Text → Option Json) (env : Env ρ)
    (quoted : ∀ path, ∃ inner, env.debugPath path = '"' :: (inner ++ ['"'])) (files : ι → PendingPushFile)
    (first second : ι → FileNames) :
    let decision := fun (names : ι → FileNames) i (failure : UploadFailure) =>
      failureDecision (names i).remotePath (failure.error parse env ((files i).called (names i)))
    (∀ i failure, decision first i failure = decision second i failure ↔
      SameWords parse env (files i) failure (first i) (second i)) ∧
    ∀ batches : List (FailedBatch ι),
      (∀ batch ∈ batches, ∀ pair ∈ (batch.owner, batch.failure) :: batch.alone,
        SameWords parse env (files pair.1) pair.2 (first pair.1) (second pair.1)) →
      decideBatches (decision first) batches = decideBatches (decision second) batches := by
  refine ⟨fun i failure => failureDecision_same_iff quoted, fun batches same => ?_⟩
  exact decideBatches_congr fun batch inside pair here =>
    (failureDecision_same_iff quoted).mpr (same batch inside pair here)

namespace Misread

/-- A path is shown between quotes. -/
def env : Env Shelf :=
  { shelfEnv with debugPath := fun path => '"' :: (([slash].intercalate path).map OsUnit.lossy ++ ['"']) }

def names (folder name : String) : FileNames where
  localPath := ofText (osText (text folder ++ '/' :: text name))
  remotePath := '/' :: text name
  rooted := rfl

def plain : Bool → FileNames
  | false => names "/home" "a.txt"
  | true => names "/home" "b.txt"

def renamed : Bool → FileNames
  | false => names "/home" "c.txt"
  | true => names "/data" "d.txt"

/-- One file has a name that is taken for an answer, and the other lies in such a folder. -/
def misleading : Bool → FileNames
  | false => names "/home" "403 Forbidden.txt"
  | true => names "/401 Unauthorized" "b.txt"

def file : PendingPushFile := ⟨[], [], text "h", 1, 0, none⟩

/-- The engine refuses a commit, and a file cannot be opened. -/
def failing : List (FailedBatch Bool) :=
  [⟨false, .answered .commit 409 (text "conflict"),
    [(false, .answered .commit 409 (text "conflict")), (true, .opening IoError.notFound)]⟩]

def decision (called : Bool → FileNames) (i : Bool) (failure : UploadFailure) : FailureDecision :=
  failureDecision (called i).remotePath (failure.error (fun _ => none) env (file.called (called i)))

theorem failureDecision_renamed_plain :
    decideBatches (decision plain) failing = decideBatches (decision renamed) failing ∧
      decideBatches (decision renamed) failing = [(false, .failed), (true, .failed)] := by
  refine ⟨(failureDecision_renamed (fun _ => none) env (fun path => ⟨_, rfl⟩) (fun _ => file) plain renamed).2 failing ?_,
    by decide +kernel⟩
  intro batch inside pair here
  obtain rfl := List.mem_singleton.mp inside
  simp only [List.mem_cons, List.not_mem_nil, or_false] at here
  rcases here with rfl | rfl | rfl <;>
    exact ⟨by decide +kernel, fun _ => by decide +kernel, fun _ _ => by decide +kernel⟩

theorem injective_of_remotePath {called : Bool → FileNames}
    (apart : ∀ i j, (called i).remotePath = (called j).remotePath → i = j) : Function.Injective called :=
  fun i j same => apart i j (congrArg FileNames.remotePath same)

/-- A name decides that a refused upload counts as done, and another one that the push ends. -/
theorem failureDecision_misread : Function.Injective plain ∧ Function.Injective misleading ∧
    decideBatches (decision plain) failing = [(false, .failed), (true, .failed)] ∧
    decideBatches (decision misleading) failing = [(false, .forbidden), (true, .aborted)] :=
  ⟨injective_of_remotePath (by decide +kernel), injective_of_remotePath (by decide +kernel), by decide +kernel,
    by decide +kernel⟩

end Misread

end AeordbSync

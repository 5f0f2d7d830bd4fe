import AeordbSync.Library.Effect
import AeordbSync.Update.Manifest

namespace AeordbSync
open Characters Effect

/-- The latest poll. Only the envelope, its signature and the name of the key are trusted in the end. -/
structure UpdateInfo where
  available : Bool
  currentVersion : Text
  latestVersion : Option Text
  releaseNotesUrl : Option Text
  downloadUrl : Option Text
  size : Option Int
  sha256 : Option Text
  platform : Text
  lastChecked : Option Int
  error : Option Text
  signedManifest : Option Json
  keyId : Option Text
  signature : Option Text

def UpdateInfo.empty : UpdateInfo :=
  ⟨false, [], none, none, none, none, none, [], none, none, none, none, none⟩

/-- What is fixed while the client runs. -/
structure UpdateHost where
  currentVersion : Text
  platform : Text
  downloadBase : Text
  trust : TrustStore

structure VersionResponse where
  version : Text
  releaseNotesUrl : Option Text
  platform : Option Text
  downloadUrl : Option Text
  size : Option Int
  sha256 : Option Text
  signedManifest : Option Json
  keyId : Option Text
  signature : Option Text

/-- The outcome of a request to the version endpoint. -/
inductive VersionReply where
  | failed (error : Text)
  | answered (status : Nat) (body : Except Text Json)

/-- The outcome of a download. A download that breaks off leaves what has arrived. -/
inductive Delivery where
  | failed (error : Text)
  | answered (status : Nat) (bytes : Bytes) (broken : Option Text)

/-- What the environment decides while an update is applied: the place of the new file, or why there is
none, what each address delivers, and which of the last steps fail. -/
structure ApplyEnvironment where
  stagedPath : Except Text Text
  deliver : Text → Delivery
  readable : Option Text
  executable : Option Text
  relauncher : Option Text

variable {κ : Type} (libraries : UpdateLibraries κ) (host : UpdateHost)

namespace VersionResponse

/-- A time that is given has to be one. -/
def dateTime? (json : Json) : Option Text := json.string?.filter libraries.isDateTime

def ofJson (json : Json) : Option VersionResponse := do
  guard (json.isRecord 10)
  let version ← (json.member 0 (text "version")).bind Json.string?
  let _ ← Json.optional (dateTime? libraries) (json.member 1 (text "released_at"))
  let releaseNotesUrl ← Json.optional Json.string? (json.member 2 (text "release_notes_url"))
  let platform ← Json.optional Json.string? (json.member 3 (text "platform"))
  let downloadUrl ← Json.optional Json.string? (json.member 4 (text "download_url"))
  let size ← Json.optional Json.int64? (json.member 5 (text "size"))
  let sha256 ← Json.optional Json.string? (json.member 6 (text "sha256"))
  let signedManifest ← Json.optional some (json.member 7 (text "signed_manifest"))
  let keyId ← Json.optional Json.string? (json.member 8 (text "key_id"))
  let signature ← Json.optional Json.string? (json.member 9 (text "signature"))
  pure ⟨version, releaseNotesUrl, platform, downloadUrl, size, sha256, signedManifest, keyId, signature⟩

end VersionResponse

namespace UpdateHost

def noUpdate (lastChecked : Option Int) (error : Option Text) : UpdateInfo :=
  { UpdateInfo.empty with
    currentVersion := host.currentVersion
    platform := host.platform
    lastChecked := lastChecked
    error := error }

/-- The signature is verified before an update counts as available. -/
def offered (response : VersionResponse) (now : Int) : UpdateInfo :=
  let check := verifyManifestSignature libraries host.trust response.signedManifest response.keyId
    response.signature response.version
  { available := match check with
      | .ok _ => isNewer response.version host.currentVersion
      | .error _ => false
    currentVersion := host.currentVersion
    latestVersion := some response.version
    releaseNotesUrl := response.releaseNotesUrl
    downloadUrl := response.downloadUrl
    size := response.size
    sha256 := response.sha256
    platform := response.platform.getD host.platform
    lastChecked := some now
    error := match check with
      | .ok _ => none
      | .error error => some (text "signature: " ++ error)
    signedManifest := response.signedManifest
    keyId := response.keyId
    signature := response.signature }

def checkInner (reply : VersionReply) (now : Int) : UpdateInfo :=
  match reply with
  | .failed error => host.noUpdate none (some (text "network: " ++ error))
  | .answered 200 (.error error) => host.noUpdate none (some (text "parse: " ++ error))
  | .answered 200 (.ok body) => match VersionResponse.ofJson libraries body with
      | none => host.noUpdate none (some (text "parse: " ++ libraries.manifestError body))
      | some response => host.offered libraries response now
  | .answered 404 _ => host.noUpdate (some now) none
  | .answered 503 _ => host.noUpdate (some now) none
  | .answered status _ => host.noUpdate none (some (text "server returned " ++ decimal status))

/-- The version and the platform of the host are kept where the new snapshot has none. -/
def checkOnce (info : UpdateInfo) (reply : VersionReply) (now : Int) : UpdateInfo :=
  let polled := host.checkInner libraries reply now
  { polled with
    currentVersion := if polled.currentVersion = [] then info.currentVersion else polled.currentVersion
    platform := if polled.platform = [] then info.platform else polled.platform }

def newState : UpdateInfo :=
  { UpdateInfo.empty with currentVersion := host.currentVersion, platform := host.platform }

end UpdateHost

/-- The new file next to the running one, and the contents with which a relauncher has been reached. -/
structure UpdateFiles where
  staged : Option Bytes
  relaunched : List Bytes

/-- A text of hexadecimal digits, in either case. -/
def eqIgnoreAsciiCase (a b : Text) : Bool := decide (toAsciiLowercase a = toAsciiLowercase b)

/-- A failure that the environment decides. -/
def failing (message : Text) : Option Text → Proc UpdateFiles Text Unit
  | some _ => Proc.throw message
  | none => pure ()

def downloadTo (message : Text) : Delivery → Proc UpdateFiles Text Unit
  | .failed _ => Proc.throw message
  | .answered status bytes broken =>
      if status < 200 ∨ 300 ≤ status then Proc.throw message
      else do
        Proc.modify fun files => { files with staged := some bytes }
        failing message broken

/-- The file is read back. -/
def verifySha256 (message : Text) (readable : Option Text) (expected : Text) : Proc UpdateFiles Text Bytes := do
  failing message readable
  let files ← Proc.get
  match files.staged with
  | none => Proc.throw message
  | some bytes =>
      if eqIgnoreAsciiCase (libraries.sha256 bytes) expected then pure bytes else Proc.throw message

def spawnRelauncher (fault : Option Text) (bytes : Bytes) : Proc UpdateFiles Text Unit := do
  Proc.modify fun files => { files with relaunched := bytes :: files.relaunched }
  failing (text "failed to spawn relauncher") fault

/-- The part of an update that the envelope decides: the address of the file and its digest. -/
def plannedUpdate (info : UpdateInfo) : Except Text (Text × Text) := do
  let announced ← required (text "no latest_version in update info") info.latestVersion
  (verifyManifestSignature libraries host.trust info.signedManifest info.keyId info.signature announced).mapError
    fun _ => text "manifest signature verify failed at apply time"
  let signedManifest ← required (text "apply requires signed_manifest") info.signedManifest
  let envelope ← required (text "parse signed envelope") (SignedManifest.ofJson signedManifest)
  let entry ← required (text "signed envelope has no entry for platform " ++ host.platform)
    (envelope.platforms.lookup host.platform)
  pure (host.downloadBase ++ entry.file, entry.sha256)

def applyUpdate (environment : ApplyEnvironment) (info : UpdateInfo) : Proc UpdateFiles Text Unit := do
  let (url, sha256) ← Proc.ofExcept (plannedUpdate libraries host info)
  let path ← Proc.ofExcept environment.stagedPath
  downloadTo (text "download " ++ url ++ text " -> " ++ path) (environment.deliver url)
  let bytes ← verifySha256 libraries (text "sha256 verify failed for " ++ path) environment.readable sha256
  failing (environment.executable.getD []) environment.executable
  spawnRelauncher environment.relauncher bytes

/-- The snapshot of the last poll, the snapshot with which an update is being applied, and the files. -/
structure Updater where
  info : UpdateInfo
  applying : Option UpdateInfo
  files : UpdateFiles

inductive UpdateAction where
  | check (reply : VersionReply) (now : Int)
  | beginApply
  | finishApply (environment : ApplyEnvironment)

namespace Updater

def initial (staged : Option Bytes) : Updater := ⟨host.newState, none, ⟨staged, []⟩⟩

/-- A request to apply is refused while no update is available. Polls can come between its steps. -/
def step (updater : Updater) : UpdateAction → Updater
  | .check reply now => { updater with info := host.checkOnce libraries updater.info reply now }
  | .beginApply =>
      if updater.info.available = true ∧ updater.applying.isNone = true then
        { updater with applying := some updater.info }
      else updater
  | .finishApply environment => match updater.applying with
      | none => updater
      | some info =>
          { updater with
            applying := none
            files := (applyUpdate libraries host environment info updater.files).2 }

def run (updater : Updater) (actions : List UpdateAction) : Updater :=
  actions.foldl (step libraries host) updater

end Updater

/-- The contents have the digest that a signed envelope gives for the platform of the host, and the
envelope is one of a newer version. -/
def Authentic (bytes : Bytes) : Prop :=
  ∃ keyId envelope manifest version entry, Signed libraries host.trust keyId envelope manifest ∧
    manifest.version = some version ∧ isNewer version host.currentVersion = true ∧
    manifest.platforms.lookup host.platform = some entry ∧
    eqIgnoreAsciiCase (libraries.sha256 bytes) entry.sha256 = true

/-- Two steps are the same, or polls whose responses agree on the version, the envelope, the key and the
signature. -/
inductive Alike : UpdateAction → UpdateAction → Prop
  | same (action : UpdateAction) : Alike action action
  | advisory {body body' : Json} {response response' : VersionResponse} {now now' : Int}
      (read : VersionResponse.ofJson libraries body = some response)
      (read' : VersionResponse.ofJson libraries body' = some response')
      (version : response.version = response'.version)
      (signedManifest : response.signedManifest = response'.signedManifest)
      (keyId : response.keyId = response'.keyId) (signature : response.signature = response'.signature) :
      Alike (.check (.answered 200 (.ok body)) now) (.check (.answered 200 (.ok body')) now')

section

variable {libraries host}

/-- The snapshot offers only a newer version. -/
def UpdateInfo.Newer (host : UpdateHost) (info : UpdateInfo) : Prop :=
  info.available = true → ∃ version, info.latestVersion = some version ∧
    isNewer version host.currentVersion = true

theorem newer_checkOnce (libraries : UpdateLibraries κ) (host : UpdateHost) (info : UpdateInfo)
    (reply : VersionReply) (now : Int) : (host.checkOnce libraries info reply now).Newer host := by
  have none : ∀ lastChecked error, (host.noUpdate lastChecked error).Newer host := by
    intro lastChecked error available
    cases available
  have polled : (host.checkInner libraries reply now).Newer host := by
    unfold UpdateHost.checkInner
    split
    · exact none _ _
    · exact none _ _
    · split
      · exact none _ _
      next response _ =>
        intro available
        refine ⟨response.version, rfl, ?_⟩
        simp only [UpdateHost.offered] at available
        split at available
        · exact available
        · cases available
    · exact none _ _
    · exact none _ _
    · exact none _ _
  exact polled

/-- A plan comes from a signed envelope of the announced version. -/
theorem plannedUpdate_ok {info : UpdateInfo} {url sha256 : Text}
    (planned : plannedUpdate libraries host info = .ok (url, sha256)) :
    ∃ keyId envelope manifest version entry, info.latestVersion = some version ∧
      Signed libraries host.trust keyId envelope manifest ∧ manifest.version = some version ∧
      manifest.platforms.lookup host.platform = some entry ∧ sha256 = entry.sha256 := by
  obtain ⟨version, announced, planned⟩ := bind_eq_ok planned
  obtain ⟨_, verified, planned⟩ := bind_eq_ok planned
  obtain ⟨envelope, present, planned⟩ := bind_eq_ok planned
  obtain ⟨manifest, parsed, planned⟩ := bind_eq_ok planned
  obtain ⟨entry, listed, done⟩ := bind_eq_ok planned
  have passed : verifyManifestSignature libraries host.trust info.signedManifest info.keyId info.signature
      version = .ok () := by
    cases check : verifyManifestSignature libraries host.trust info.signedManifest info.keyId info.signature
        version with
    | ok done => rfl
    | error error =>
        rw [check] at verified
        cases verified
  obtain ⟨envelope', keyId, manifest', same, _, signed, stated⟩ := verifyManifestSignature_ok passed
  have equal := required_eq_ok present
  rw [same, Option.some.injEq] at equal
  subst equal
  have read := required_eq_ok parsed
  rw [signed.parsed, Option.some.injEq] at read
  subst read
  cases done
  exact ⟨keyId, envelope', manifest', version, entry, required_eq_ok announced, signed, stated,
    required_eq_ok listed, rfl⟩

/-- Everything that has reached a relauncher is authentic. -/
def UpdateFiles.Accepted (libraries : UpdateLibraries κ) (host : UpdateHost) (files : UpdateFiles) : Prop :=
  ∀ bytes ∈ files.relaunched, Authentic libraries host bytes

theorem failing_triple {P : UpdateFiles → Prop} (message : Text) (fault : Option Text) :
    Triple P (failing message fault) (fun _ => P) (fun _ => P) := by
  cases fault with
  | none => exact Triple.ret fun _ holds => holds
  | some error => exact Triple.throw fun _ holds => holds

theorem downloadTo_accepted (message : Text) (delivery : Delivery) :
    Triple (UpdateFiles.Accepted libraries host) (downloadTo message delivery) (fun _ => UpdateFiles.Accepted libraries host)
      (fun _ => UpdateFiles.Accepted libraries host) := by
  cases delivery with
  | failed error => exact Triple.throw fun _ holds => holds
  | answered status bytes broken =>
      apply Triple.ite
      · intro _
        exact Triple.throw fun _ holds => holds
      · intro _
        apply Triple.seq (Triple.modify _) (failing_triple message broken)
        exact fun _ holds => holds

/-- The contents that are read back have the expected digest. -/
theorem verifySha256_accepted (message : Text) (readable : Option Text) (expected : Text) :
    Triple (UpdateFiles.Accepted libraries host) (verifySha256 libraries message readable expected)
      (fun bytes files => UpdateFiles.Accepted libraries host files ∧
        eqIgnoreAsciiCase (libraries.sha256 bytes) expected = true)
      (fun _ => UpdateFiles.Accepted libraries host) := by
  apply Triple.seq (failing_triple message readable)
  apply Triple.bind (Triple.get (Q := fun _ => UpdateFiles.Accepted libraries host) fun _ holds => holds)
  intro files
  cases files.staged with
  | none => exact Triple.throw fun _ holds => holds
  | some bytes =>
      apply Triple.ite
      · intro same
        exact Triple.ret fun _ holds => ⟨holds, same⟩
      · intro _
        exact Triple.throw fun _ holds => holds

/-- An update that a poll has offered relaunches authentic contents only. -/
theorem applyUpdate_accepted {info : UpdateInfo} (newer : info.Newer host) (available : info.available = true)
    (environment : ApplyEnvironment) :
    Triple (UpdateFiles.Accepted libraries host) (applyUpdate libraries host environment info)
      (fun _ => UpdateFiles.Accepted libraries host) (fun _ => UpdateFiles.Accepted libraries host) := by
  apply Triple.bind (Triple.ofExcept (Q := fun plan files => plannedUpdate libraries host info = .ok plan ∧
    UpdateFiles.Accepted libraries host files) (fun plan planned _ holds => ⟨planned, holds⟩) fun _ _ _ holds => holds)
  rintro ⟨url, sha256⟩
  apply Triple.assume fun _ holds => holds.1
  intro planned
  obtain ⟨keyId, envelope, manifest, version, entry, announced, signed, stated, listed, rfl⟩ :=
    plannedUpdate_ok planned
  obtain ⟨other, latest, fresh⟩ := newer available
  rw [announced, Option.some.injEq] at latest
  subst latest
  apply Triple.weaken _ fun _ holds => holds.2
  apply Triple.bind (Triple.ofExcept (Q := fun _ => UpdateFiles.Accepted libraries host) (fun _ _ _ holds => holds)
    fun _ _ _ holds => holds)
  intro path
  apply Triple.seq (downloadTo_accepted _ _)
  apply Triple.bind (verifySha256_accepted _ _ _)
  intro bytes
  apply Triple.assume fun _ holds => holds.2
  intro same
  apply Triple.weaken _ fun _ holds => holds.1
  apply Triple.seq (failing_triple _ _)
  apply Triple.seq (Triple.modify _) (failing_triple _ _)
  intro files holds other inside
  rcases List.mem_cons.mp inside with rfl | old
  · exact ⟨keyId, envelope, manifest, version, entry, signed, stated, fresh, listed, same⟩
  · exact holds other old

/-- The snapshots offer only newer versions, and what has been relaunched is authentic. -/
structure Updater.Sound (libraries : UpdateLibraries κ) (host : UpdateHost) (updater : Updater) : Prop where
  info : updater.info.Newer host
  applying : ∀ info, updater.applying = some info → info.Newer host ∧ info.available = true
  accepted : UpdateFiles.Accepted libraries host updater.files

theorem Updater.Sound.step {updater : Updater} (sound : updater.Sound libraries host) (action : UpdateAction) :
    (updater.step libraries host action).Sound libraries host := by
  cases action with
  | check reply now => exact ⟨newer_checkOnce libraries host updater.info reply now, sound.applying, sound.accepted⟩
  | beginApply =>
      simp only [Updater.step]
      split
      next fits =>
        refine ⟨sound.info, ?_, sound.accepted⟩
        intro info begun
        cases begun
        exact ⟨sound.info, fits.1⟩
      · exact sound
  | finishApply environment =>
      simp only [Updater.step]
      split
      · exact sound
      next info begun =>
        obtain ⟨newer, available⟩ := sound.applying info begun
        refine ⟨sound.info, ?_, ?_⟩
        · intro other none
          cases none
        · exact Triple.reached (applyUpdate_accepted newer available environment) sound.accepted

/-- The fields of a snapshot that decide about an update. -/
def UpdateInfo.core (info : UpdateInfo) :
    Bool × Option Text × Option Json × Option Text × Option Text :=
  (info.available, info.latestVersion, info.signedManifest, info.keyId, info.signature)

/-- The snapshots agree on what decides, and the files are the same. -/
structure Updater.Agree (updater other : Updater) : Prop where
  info : updater.info.core = other.info.core
  applying : updater.applying.map UpdateInfo.core = other.applying.map UpdateInfo.core
  files : updater.files = other.files

theorem plannedUpdate_congr {info other : UpdateInfo} (same : info.core = other.core) :
    plannedUpdate libraries host info = plannedUpdate libraries host other := by
  simp only [UpdateInfo.core, Prod.mk.injEq] at same
  obtain ⟨-, version, manifest, keyId, signature⟩ := same
  rw [plannedUpdate, plannedUpdate, version, manifest, keyId, signature]

theorem checkOnce_core (info : UpdateInfo) (reply : VersionReply) (now : Int) :
    (host.checkOnce libraries info reply now).core = (host.checkInner libraries reply now).core := rfl

theorem Alike.checkInner_core {reply reply' : VersionReply} {now now' : Int}
    (alike : Alike libraries (.check reply now) (.check reply' now')) :
    (host.checkInner libraries reply now).core = (host.checkInner libraries reply' now').core := by
  cases alike with
  | same => rfl
  | advisory read read' version signedManifest keyId signature =>
      simp only [UpdateHost.checkInner, read, read', UpdateInfo.core, UpdateHost.offered, version, signedManifest,
        keyId, signature]

theorem applyUpdate_congr {info other : UpdateInfo} (same : info.core = other.core)
    (environment : ApplyEnvironment) :
    applyUpdate libraries host environment info = applyUpdate libraries host environment other := by
  rw [applyUpdate, applyUpdate, plannedUpdate_congr same]

theorem Updater.Agree.step {updater other : Updater} (agree : updater.Agree other) {action action' : UpdateAction}
    (alike : Alike libraries action action') :
    (updater.step libraries host action).Agree (other.step libraries host action') := by
  have poll : ∀ reply reply' now now', Alike libraries (.check reply now) (.check reply' now') →
      (updater.step libraries host (.check reply now)).Agree (other.step libraries host (.check reply' now')) := by
    intro reply reply' now now' similar
    have core := @Alike.checkInner_core _ _ host _ _ _ _ similar
    exact ⟨core, agree.applying, agree.files⟩
  cases alike with
  | advisory read read' version signedManifest keyId signature =>
      exact poll _ _ _ _ (.advisory read read' version signedManifest keyId signature)
  | same =>
      cases action with
      | check reply now => exact poll _ _ _ _ (.same _)
      | beginApply =>
          have available : updater.info.available = other.info.available := congrArg Prod.fst agree.info
          have idle : updater.applying.isNone = other.applying.isNone := by
            have counted := congrArg Option.isNone agree.applying
            rwa [Option.isNone_map, Option.isNone_map] at counted
          simp only [Updater.step, available, idle]
          split
          · exact ⟨agree.info, congrArg some agree.info, agree.files⟩
          · exact agree
      | finishApply environment =>
          have applying := agree.applying
          cases first : updater.applying with
          | none =>
              cases second : other.applying with
              | none => simpa only [Updater.step, first, second] using agree
              | some info => simp [first, second] at applying
          | some info =>
              cases second : other.applying with
              | none => simp [first, second] at applying
              | some info' =>
                  rw [first, second, Option.map_some, Option.map_some, Option.some.injEq] at applying
                  simp only [Updater.step, first, second]
                  refine ⟨agree.info, rfl, ?_⟩
                  simp only [applyUpdate_congr applying, agree.files]

end

/-- Whatever the version endpoint and the download server answer, in whatever order polls and updates
come: what reaches a relauncher has the digest that a signed envelope of a newer version gives for the
platform, and the advisory fields of the responses do not decide what that is. -/
theorem relaunched_authentic (staged : Option Bytes) :
    (∀ actions, ∀ bytes ∈ ((Updater.initial host staged).run libraries host actions).files.relaunched,
      Authentic libraries host bytes) ∧
    ∀ actions actions', List.Forall₂ (Alike libraries) actions actions' →
      ((Updater.initial host staged).run libraries host actions).files =
        ((Updater.initial host staged).run libraries host actions').files := by
  constructor
  · intro actions
    have sound : ∀ actions (updater : Updater), updater.Sound libraries host →
        (updater.run libraries host actions).Sound libraries host := by
      intro actions
      induction actions with
      | nil => exact fun _ sound => sound
      | cons action rest ih => exact fun updater sound => ih _ (sound.step action)
    have first : (Updater.initial host staged).Sound libraries host := by
      refine ⟨?_, ?_, ?_⟩
      · intro available
        cases available
      · intro info applying
        cases applying
      · intro bytes inside
        cases inside
    exact (sound actions _ first).accepted
  · intro actions actions' alike
    have agree : ∀ updater other : Updater, updater.Agree other →
        (updater.run libraries host actions).Agree (other.run libraries host actions') := by
      induction alike with
      | nil => exact fun _ _ agree => agree
      | cons first _ ih => exact fun updater other agree => ih _ _ (agree.step first)
    exact (agree _ _ ⟨rfl, rfl, rfl⟩).files

namespace UpdateSample

def envelope : Json :=
  .object [⟨text "version", .string (text "0.2.0")⟩,
    ⟨text "platforms", .object [⟨text "linux-x86_64",
      .object [⟨text "file", .string (text "aeordb-client")⟩,
        ⟨text "sha256", .string (text "ba7816bf8f01cfea414140de5dae2223b00361a396177a9cb410ff61f20015ad")⟩]⟩]⟩]

def canonical : Text :=
  text "\x7b\"platforms\":\x7b\"linux-x86_64\":\x7b\"file\":\"aeordb-client\",\"sha256\":" ++
    text "\"ba7816bf8f01cfea414140de5dae2223b00361a396177a9cb410ff61f20015ad\"\x7d\x7d,\"version\":\"0.2.0\"\x7d"

def verifyingKey : Bytes :=
  [215, 90, 152, 1, 130, 177, 10, 183, 213, 75, 254, 211, 201, 100, 7, 58, 14, 225, 114, 243, 218, 166, 35, 37,
    175, 2, 26, 104, 247, 7, 81, 26]

def signature : Bytes :=
  [142, 8, 164, 140, 8, 37, 180, 214, 68, 236, 183, 140, 155, 33, 48, 227, 189, 36, 3, 22, 186, 104, 43, 17, 0,
    122, 254, 98, 30, 216, 165, 187, 197, 129, 107, 44, 229, 26, 136, 122, 93, 153, 132, 72, 179, 208, 30, 21,
    90, 62, 132, 218, 14, 46, 151, 81, 121, 1, 98, 116, 69, 196, 100, 3]

def signatureText : Text :=
  text "jgikjAgltNZE7LeMmyEw470kAxa6aCsRAHr+Yh7YpbvFgWss5RqIel2ZhEiz0B4VWj6E2g4ul1F5AWJ0RcRkAw=="

/-- The signature is that of the canonical text under the secret key of the first test of Ed25519. -/
def sampleLibraries : UpdateLibraries Bytes where
  canonical _ := .ok canonical
  decodeBase64 encoded := if encoded = signatureText then .ok signature else .error (text "Invalid byte 0")
  verifyingKey bytes := .ok bytes
  verify key message signed := decide (key = verifyingKey ∧ message = canonical ∧ signed = signature)
  sha256 _ := text "ba7816bf8f01cfea414140de5dae2223b00361a396177a9cb410ff61f20015ad"
  manifestError _ := text "invalid type"
  isDateTime _ := true

def sampleHost : UpdateHost :=
  ⟨text "0.1.3", text "linux-x86_64", text "https://aeordb.com/downloads/", [(text "release", verifyingKey)]⟩

def response (advisory : Text) : Json :=
  .object [⟨text "version", .string (text "0.2.0")⟩, ⟨text "sha256", .string advisory⟩,
    ⟨text "signed_manifest", envelope⟩, ⟨text "key_id", .string (text "release")⟩,
    ⟨text "signature", .string signatureText⟩]

def environment : ApplyEnvironment :=
  ⟨.ok (text "/opt/aeordb-client.new"), fun _ => .answered 200 [97, 98, 99] none, none, none, none⟩

def actions (advisory : Text) : List UpdateAction :=
  [.check (.answered 200 (.ok (response advisory))) 0, .beginApply, .finishApply environment]

end UpdateSample

open UpdateSample in
/-- The bytes of `abc` are relaunched, whatever digest the response names. -/
theorem relaunched_authentic_sample :
    Authentic sampleLibraries sampleHost [97, 98, 99] ∧
      ((Updater.initial sampleHost none).run sampleLibraries sampleHost (actions (text "ba78"))).files =
        ((Updater.initial sampleHost none).run sampleLibraries sampleHost (actions (text "00"))).files := by
  obtain ⟨authentic, advisory⟩ := relaunched_authentic sampleLibraries sampleHost none
  constructor
  · apply authentic (actions (text "00"))
    have relaunched : ((Updater.initial sampleHost none).run sampleLibraries sampleHost (actions (text "00"))).files.relaunched =
        [[97, 98, 99]] := by decide +kernel
    rw [relaunched]
    exact List.mem_singleton.mpr rfl
  · apply advisory
    apply List.Forall₂.cons
    · exact Alike.advisory rfl rfl rfl rfl rfl rfl
    · exact .cons (.same _) (.cons (.same _) .nil)

end AeordbSync

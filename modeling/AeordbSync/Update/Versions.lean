import Mathlib.Data.Char
import Mathlib.Data.Prod.Lex
import Mathlib.Data.List.Lex
import AeordbSync.Library.MixedOrder
import AeordbSync.Update.Apply

namespace AeordbSync
open Characters MixedOrder

/-- The numbers of a version in the order in which they are compared. -/
def versionKey (t : Text) : Option (Nat ×ₗ Nat ×ₗ Nat) :=
  (parseVersion t).map fun numbers => toLex (numbers.1, toLex numbers.2)

theorem isNewer_iff (remote current : Text) : isNewer remote current = true ↔ After versionKey remote current := by
  unfold isNewer After versionKey
  cases parseVersion remote with
  | none => simp
  | some numbers =>
      cases parseVersion current with
      | none => simp
      | some numbers' =>
          obtain ⟨major, minor, patch⟩ := numbers
          obtain ⟨major', minor', patch'⟩ := numbers'
          simp [Prod.Lex.toLex_lt_toLex]

/-- Exactly two of the versions are numbers, and the third one lies between their texts in the wrong way. -/
def Disordered (a b c : Text) : Prop :=
  Crossed versionKey a c b ∨ Crossed versionKey b a c ∨ Tied versionKey c b a

theorem isNewer_self (version : Text) : isNewer version version = false := by
  apply Bool.eq_false_iff.mpr
  intro newer
  exact after_irrefl version ((isNewer_iff version version).mp newer)

theorem isNewer_asymm (a b : Text) : ¬ (isNewer a b = true ∧ isNewer b a = true) := by
  intro ⟨newer, older⟩
  exact after_asymm ((isNewer_iff a b).mp newer) ((isNewer_iff b a).mp older)

theorem isNewer_trans_iff (a b c : Text) :
    (isNewer a b = true → isNewer b c = true → isNewer a c = true) ↔ ¬ Disordered a b c := by
  rw [isNewer_iff, isNewer_iff, isNewer_iff, after_trans_iff, Disordered, not_or, not_or]

/-- Three versions of which each one is newer than the next. -/
theorem isNewer_cycle :
    isNewer (text "0.9.0") (text "0.10.0-rc1") = true ∧ isNewer (text "0.10.0-rc1") (text "0.10.0") = true ∧
      isNewer (text "0.10.0") (text "0.9.0") = true ∧ isNewer (text "0.9.0") (text "0.10.0") = false := by
  decide +kernel

variable {κ : Type} (libraries : UpdateLibraries κ) (host : UpdateHost)

namespace UpdateHost

/-- The versions of the verified responses among the answers that a server may give. -/
def signedVersions (replies : Set VersionReply) : Set Text :=
  {version | ∃ body response, VersionReply.answered 200 (.ok body) ∈ replies ∧
    VersionResponse.ofJson libraries body = some response ∧ response.version = version ∧
    verifyManifestSignature libraries host.trust response.signedManifest response.keyId response.signature
      response.version = .ok ()}

/-- A client of one version is offered another one by an answer, and it takes it. -/
def Upgrades (replies : Set VersionReply) (current next : Text) : Prop :=
  ∃ reply ∈ replies, ∃ now,
    let info := ({ host with currentVersion := current } : UpdateHost).checkInner libraries reply now
    info.available = true ∧ info.latestVersion = some next

variable {libraries host}

theorem checkInner_available {reply : VersionReply} {now : Int}
    (available : (host.checkInner libraries reply now).available = true) :
    ∃ body response, reply = .answered 200 (.ok body) ∧ VersionResponse.ofJson libraries body = some response ∧
      (host.checkInner libraries reply now).latestVersion = some response.version ∧
      isNewer response.version host.currentVersion = true ∧
      verifyManifestSignature libraries host.trust response.signedManifest response.keyId response.signature
        response.version = .ok () := by
  unfold UpdateHost.checkInner at available ⊢
  split at available
  · cases available
  · cases available
  next body =>
    cases read : VersionResponse.ofJson libraries body with
    | none =>
        rw [read] at available
        cases available
    | some response =>
        rw [read] at available
        simp only [offered] at available
        cases check : verifyManifestSignature libraries host.trust response.signedManifest response.keyId
            response.signature response.version with
        | error error =>
            rw [check] at available
            cases available
        | ok done =>
            rw [check] at available
            exact ⟨body, response, rfl, read, rfl, available, check⟩
  · cases available
  · cases available
  · cases available

/-- A verified answer is offered exactly when its version is newer than the client. -/
theorem upgrades_iff {replies : Set VersionReply} {current next : Text} :
    host.Upgrades libraries replies current next ↔
      Advance versionKey (host.signedVersions libraries replies) current next := by
  constructor
  · intro ⟨reply, given, now, available, latest⟩
    obtain ⟨body, response, rfl, read, version, newer, verified⟩ := checkInner_available available
    rw [version, Option.some.injEq] at latest
    subst latest
    exact ⟨⟨body, response, given, read, rfl, verified⟩, (isNewer_iff _ _).mp newer⟩
  · intro ⟨⟨body, response, given, read, version, verified⟩, later⟩
    subst version
    refine ⟨_, given, 0, ?_⟩
    simp only [checkInner, read, offered, verified]
    exact ⟨(isNewer_iff _ _).mpr later, trivial⟩

/-- The comparison is an order but for versions whose texts and numbers disagree around another one, and the
signed releases make a client update in a cycle exactly when three of them do. -/
theorem versions_ordered (libraries : UpdateLibraries κ) (host : UpdateHost) (replies : Set VersionReply) :
    (∀ a, isNewer a a = false) ∧ (∀ a b, ¬ (isNewer a b = true ∧ isNewer b a = true)) ∧
      (∀ a b c, (isNewer a b = true → isNewer b c = true → isNewer a c = true) ↔ ¬ Disordered a b c) ∧
      ((∀ version, ¬ Relation.TransGen (host.Upgrades libraries replies) version version) ↔
        ∀ low ∈ host.signedVersions libraries replies, ∀ between ∈ host.signedVersions libraries replies,
          ∀ high ∈ host.signedVersions libraries replies, ¬ Crossed versionKey low between high) := by
  have same : host.Upgrades libraries replies = Advance versionKey (host.signedVersions libraries replies) := by
    funext current next
    exact propext upgrades_iff
  rw [same]
  exact ⟨isNewer_self, isNewer_asymm, isNewer_trans_iff, advance_cycle_iff⟩

end UpdateHost

end AeordbSync

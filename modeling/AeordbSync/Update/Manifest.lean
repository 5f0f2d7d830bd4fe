import AeordbSync.Errors
import AeordbSync.Library.Json

namespace AeordbSync
open Characters

def parseU32 (t : Text) : Option Nat := parseUnsigned 32 t

/-- The first three parts of a version. -/
def parseVersion (t : Text) : Option (Nat × Nat × Nat) :=
  match t.splitOn '.' with
  | major :: minor :: patch :: _ => do
      let major ← parseU32 major
      let minor ← parseU32 minor
      let patch ← parseU32 patch
      pure (major, minor, patch)
  | _ => none

/-- A version of another form is compared as a text. -/
def isNewer (remote current : Text) : Bool :=
  match parseVersion remote, parseVersion current with
  | some (major, minor, patch), some (major', minor', patch') =>
      decide (major' < major ∨ major' = major ∧ (minor' < minor ∨ minor' = minor ∧ patch' < patch))
  | _, _ => decide (current < remote)

structure SignedPlatformEntry where
  file : Text
  size : Option Int
  sha256 : Text
  deriving DecidableEq

structure SignedManifest where
  version : Option Text
  platforms : List (Text × SignedPlatformEntry)
  deriving DecidableEq

namespace SignedPlatformEntry

def ofJson (json : Json) : Option SignedPlatformEntry := do
  guard (json.isRecord 3)
  let file ← (json.member 0 (text "file")).bind Json.string?
  let size ← Json.optional Json.int64? (json.member 1 (text "size"))
  let sha256 ← (json.member 2 (text "sha256")).bind Json.string?
  pure ⟨file, size, sha256⟩

end SignedPlatformEntry

namespace SignedManifest

def platformsOfJson : Option Json → Option (List (Text × SignedPlatformEntry))
  | none => some []
  | some (.object fields) =>
      fields.mapM fun field => (SignedPlatformEntry.ofJson field.2).map (Prod.mk field.1)
  | some _ => none

def ofJson (json : Json) : Option SignedManifest := do
  guard (json.isRecord 2)
  let version ← Json.optional Json.string? (json.member 0 (text "version"))
  let platforms ← platformsOfJson (json.member 1 (text "platforms"))
  pure ⟨version, platforms⟩

end SignedManifest

/-- The libraries that an update relies on. The last two only serve messages and the times of a response. -/
structure UpdateLibraries (κ : Type) where
  canonical : Json → Except Text Text
  decodeBase64 : Text → Except Text Bytes
  verifyingKey : Bytes → Except Text κ
  verify : κ → Text → Bytes → Bool
  sha256 : Bytes → Text
  manifestError : Json → Text
  isDateTime : Text → Bool

abbrev TrustStore := List (Text × Bytes)

/-- A value that has to be there. -/
def required {α : Type} (missing : Text) : Option α → Except Text α
  | none => .error missing
  | some value => .ok value

def ensure (c : Prop) [Decidable c] (message : Text) : Except Text Unit :=
  if c then .ok () else .error message

def explained {α : Type} (context : Text) (result : Except Text α) : Except Text α :=
  result.mapError (context ++ ·)

variable {κ : Type} (libraries : UpdateLibraries κ) (trust : TrustStore)

def trustedKey (keyId : Text) : Except Text κ := do
  let entry ← required (text "unknown key_id: " ++ keyId) (trust.find? fun entry => entry.1 = keyId)
  explained (text "malformed trusted public key: ") (libraries.verifyingKey entry.2)

def checkVersion (announcedVersion : Text) : Option Text → Except Text Unit
  | some version =>
      ensure (version = announcedVersion)
        (text "envelope version " ++ version ++ text " != announced " ++ announcedVersion)
  | none => .error (text "envelope lacks version field")

def verifyManifestSignature (signedManifest : Option Json) (keyId signature : Option Text)
    (announcedVersion : Text) : Except Text Unit := do
  let signedManifest ← required (text "response lacks signed_manifest") signedManifest
  let keyId ← required (text "response lacks key_id") keyId
  let signature ← required (text "response lacks signature") signature
  let key ← trustedKey libraries trust keyId
  let canonical ← explained (text "canonicalize envelope: ") (libraries.canonical signedManifest)
  let bytes ← explained (text "decode signature: ") (libraries.decodeBase64 signature)
  ensure (bytes.length = 64) (text "signature wrong length: expected 64, got " ++ decimal bytes.length)
  ensure (libraries.verify key canonical bytes = true) (text "ed25519 verification failed")
  let envelope ← required (text "parse signed envelope: " ++ libraries.manifestError signedManifest)
    (SignedManifest.ofJson signedManifest)
  checkVersion announcedVersion envelope.version

/-- An envelope that a trusted key has signed, with what it says. -/
structure Signed (keyId : Text) (envelope : Json) (manifest : SignedManifest) : Prop where
  parsed : SignedManifest.ofJson envelope = some manifest
  verified : ∃ bytes key canonical signature, trust.find? (fun entry => entry.1 = keyId) = some (keyId, bytes) ∧
    libraries.verifyingKey bytes = .ok key ∧ libraries.canonical envelope = .ok canonical ∧
    libraries.verify key canonical signature = true

section

variable {libraries trust}

theorem required_eq_ok {α : Type} {missing : Text} {value : Option α} {a : α}
    (given : required missing value = .ok a) : value = some a := by
  cases value with
  | none => cases given
  | some other =>
      cases given
      rfl

theorem ensure_eq_ok {c : Prop} [Decidable c] {message : Text} {done : Unit} (holds : ensure c message = .ok done) :
    c := by
  unfold ensure at holds
  split at holds
  next fits => exact fits
  · cases holds

theorem explained_eq_ok {α : Type} {context : Text} {result : Except Text α} {a : α}
    (succeeded : explained context result = .ok a) : result = .ok a := by
  cases result with
  | error _ => cases succeeded
  | ok value =>
      cases succeeded
      rfl

/-- What a manifest that passes the check has shown. -/
theorem verifyManifestSignature_ok {signedManifest : Option Json} {keyId signature : Option Text}
    {announcedVersion : Text}
    (passed : verifyManifestSignature libraries trust signedManifest keyId signature announcedVersion = .ok ()) :
    ∃ envelope id manifest, signedManifest = some envelope ∧ keyId = some id ∧
      Signed libraries trust id envelope manifest ∧ manifest.version = some announcedVersion := by
  obtain ⟨envelope, present, passed⟩ := bind_eq_ok passed
  obtain ⟨id, named, passed⟩ := bind_eq_ok passed
  obtain ⟨signed, _, passed⟩ := bind_eq_ok passed
  obtain ⟨key, trusted, passed⟩ := bind_eq_ok passed
  obtain ⟨canonical, canonicalized, passed⟩ := bind_eq_ok passed
  obtain ⟨bytes, _, passed⟩ := bind_eq_ok passed
  obtain ⟨_, _, passed⟩ := bind_eq_ok passed
  obtain ⟨_, verified, passed⟩ := bind_eq_ok passed
  obtain ⟨manifest, parsed, checked⟩ := bind_eq_ok passed
  obtain ⟨⟨found, keyBytes⟩, entry, made⟩ := bind_eq_ok trusted
  have stored := required_eq_ok entry
  have same : found = id := by simpa using List.find?_some stored
  subst same
  refine ⟨envelope, found, manifest, required_eq_ok present, required_eq_ok named, ⟨required_eq_ok parsed, ?_⟩, ?_⟩
  · exact ⟨keyBytes, key, canonical, bytes, stored, explained_eq_ok made, explained_eq_ok canonicalized,
      ensure_eq_ok verified⟩
  · cases version : manifest.version with
    | none =>
        rw [version] at checked
        cases checked
    | some value =>
        rw [version] at checked
        rw [ensure_eq_ok checked]

end

end AeordbSync

import AeordbSync.Library.FileSystem

namespace AeordbSync
open Characters FileSystem

def text (s : String) : Text := s.toList

def isSuccess (status : Nat) : Bool := decide (200 ≤ status) && decide (status < 300)

inductive ClientError where
  | server (message : Text)
  | configuration (message : Text)
  | notFound (message : Text)
  | badRequest (message : Text)
  | forbidden (message : Text)
  | badGateway (message : Text)
  | upstreamUnreachable (message : Text)
  | upstreamServer (status : Nat) (message : Text)
  | upstreamProtocol (message : Text)
  | upstreamRejected (status : Nat) (message : Text)
  | io (error : IoError)
  | serialization (message : Text)
  deriving DecidableEq

namespace ClientError

def display : ClientError → Text
  | server message => text "server error: " ++ message
  | configuration message => text "configuration error: " ++ message
  | notFound message => text "not found: " ++ message
  | badRequest message => text "bad request: " ++ message
  | forbidden message => text "forbidden: " ++ message
  | badGateway message => text "bad gateway: " ++ message
  | upstreamUnreachable message => text "upstream unreachable: " ++ message
  | upstreamServer status message =>
      text "upstream server error (HTTP " ++ decimal status ++ text "): " ++ message
  | upstreamProtocol message => text "upstream protocol error: " ++ message
  | upstreamRejected status message =>
      text "upstream rejected (HTTP " ++ decimal status ++ text "): " ++ message
  | io error => text "io error: " ++ error.text
  | serialization message => text "serialization error: " ++ message

/-- An older remote helper reports an upstream failure by its words only. -/
def mentionsTransient (message : Text) : Bool :=
  let lower := toAsciiLowercase message
  contains lower (text "http 502") || contains lower (text "http 503") ||
    contains lower (text "http 504") || contains lower (text "bad gateway") ||
    contains lower (text "service unavailable") || contains lower (text "gateway timeout") ||
    contains lower (text "connection refused") || contains lower (text "connection reset") ||
    contains lower (text "timed out") || contains lower (text "timeout")

def mentionsRetry (message : Text) : Bool :=
  let lower := toAsciiLowercase message
  contains lower (text "retryable") || contains lower (text "retry shortly") ||
    contains lower (text "already in progress") ||
    contains lower (text "engine refused /blobs/commit")

def isTransientUpstream : ClientError → Bool
  | upstreamUnreachable _ => true
  | upstreamServer status _ => status == 502 || status == 503 || status == 504
  | upstreamRejected 429 message => mentionsRetry message
  | server message => mentionsTransient message
  | _ => false

end ClientError

def isTransientPushError (error : ClientError) : Bool := error.isTransientUpstream

def isUnrecoverablePushErrorMessage (message : Text) : Bool :=
  let lower := toAsciiLowercase message
  contains lower (text "401 unauthorized") || contains lower (text "invalid or expired token") ||
    (contains lower (text "429 too many requests") &&
      (contains lower (text "token exchange") || contains lower (text "auth")))

def isUnrecoverablePushError (error : ClientError) : Bool :=
  if isTransientPushError error then false
  else match error with
    | .upstreamRejected 401 _ => true
    | _ => isUnrecoverablePushErrorMessage error.display

theorem bind_eq_ok {ε α β : Type} {x : Except ε α} {f : α → Except ε β} {b : β}
    (succeeded : x >>= f = .ok b) : ∃ a, x = .ok a ∧ f a = .ok b := by
  cases x with
  | error _ => cases succeeded
  | ok a => exact ⟨a, rfl, succeeded⟩

/-- A transient failure never aborts the push as an authentication failure. -/
theorem isUnrecoverablePushError_transient (error : ClientError)
    (transient : isTransientPushError error = true) : isUnrecoverablePushError error = false := by
  unfold isUnrecoverablePushError
  exact if_pos transient

end AeordbSync

import AeordbSync.Configuration.Store

namespace AeordbSync
open Characters Effect

/-- The library that parses URLs. -/
structure UrlLibrary (ν : Type) where
  parse : Text → Option ν
  join : ν → Text → Option ν
  display : ν → Text
  scheme : ν → Text
  hostStr : ν → Option Text
  port : ν → Option Nat

/-- What is put behind an address does not change its origin, and an address is read as it was displayed. -/
structure UrlLaws {ν : Type} (urls : UrlLibrary ν) : Prop where
  origin : ∀ base rest address url, urls.parse base = some address → urls.parse (base ++ '/' :: rest) = some url →
    urls.scheme url = urls.scheme address ∧ urls.hostStr url = urls.hostStr address ∧ urls.port url = urls.port address
  display : ∀ url, urls.parse (urls.display url) = some url

/-- What a request carries as far as its credentials are concerned: the header and the key in its body. -/
structure AuthRequest (ν : Type) where
  url : ν
  authorization : Option Text
  apiKey : Option Text

/-- The outcome of a request. The token is the one of its body, if there is one. -/
inductive AuthReply where
  | failed
  | answered (status : Nat) (location : Option Text) (token : Option Text)

/-- A request that was sent, how many redirects may still be followed, and the reply. -/
structure AuthExchange (ν : Type) where
  request : AuthRequest ν
  left : Nat
  reply : AuthReply

/-- The replies to come, what was sent, and the token that the clients of a connection share. -/
structure AuthWire (ν : Type) where
  replies : List AuthReply
  exchanges : List (AuthExchange ν)
  slot : Option Text

inductive AuthError where
  | transport
  | noLocation (status : Nat) (chain : List Text)
  | unparseableLocation (status : Nat) (location : Text)
  | exceeded (chain : List Text) (next : Text)
  | refused (status : Nat) (chain : List Text)
  | missingToken
  deriving DecidableEq

structure RemoteClient where
  baseUrl : Text
  apiKey : Option Text

def RemoteClient.fromConnection (connection : RemoteConnection) : RemoteClient where
  baseUrl := normalizeUrl connection.url
  apiKey := if connection.authType = AuthType.apiKey then connection.apiKey else none

def isRedirect (status : Nat) : Bool := [301, 302, 307, 308].contains status

variable {ν : Type} (urls : UrlLibrary ν)

abbrev AuthProgram (ν α : Type) := Proc (AuthWire ν) AuthError α

/-- Where a reply leads that redirects. -/
def AuthReply.target (url : ν) : AuthReply → Option ν
  | .answered status (some location) _ => if isRedirect status = true then urls.join url location else none
  | _ => none

def execute (request : AuthRequest ν) (left : Nat) : AuthProgram ν AuthReply := fun wire =>
  let reply := wire.replies.headD .failed
  let next := { wire with
    replies := wire.replies.tail
    exchanges := wire.exchanges ++ [⟨request, left, reply⟩] }
  match reply with
  | .failed => (.error .transport, next)
  | _ => (.ok reply, next)

/-- The header stays through the redirects. After the last of them the reply is taken as it is. -/
def sendFollowingAuthRedirects : Nat → AuthRequest ν → AuthProgram ν AuthReply
  | 0, request => execute request 0
  | left + 1, request => do
      let reply ← execute request (left + 1)
      match reply.target urls request.url with
      | none => pure reply
      | some next => sendFollowingAuthRedirects left { request with url := next }

namespace RemoteClient

variable (client : RemoteClient)

def tokenOf (status : Nat) (chain : List Text) (token : Option Text) : AuthProgram ν Text :=
  if isSuccess status = true then
    match token with
    | some token => pure token
    | none => Proc.throw .missingToken
  else Proc.throw (.refused status chain)

/-- The key is posted to the current address, and to where its replies lead. -/
def exchangeLoop (apiKey : Text) : Nat → List Text → Text → AuthProgram ν Text
  | left, chain, current => match urls.parse current with
      | none => Proc.throw .transport
      | some url => do
          match ← execute ⟨url, none, some apiKey⟩ left with
          | .failed => Proc.throw .transport
          | .answered status location token =>
              if isRedirect status = true then
                match location with
                | none => Proc.throw (.noLocation status chain)
                | some location => match urls.join url location with
                    | none => Proc.throw (.unparseableLocation status location)
                    | some next => match left with
                        | 0 => Proc.throw (.exceeded chain (urls.display next))
                        | left + 1 => exchangeLoop apiKey left (chain ++ [urls.display next]) (urls.display next)
              else tokenOf status chain token

def exchangeToken (apiKey : Text) : AuthProgram ν Text :=
  let initialUrl := client.baseUrl ++ '/' :: text "auth/token"
  exchangeLoop urls apiKey 4 [initialUrl] initialUrl

def setSlot (token : Option Text) : AuthProgram ν Unit := Proc.modify fun wire => { wire with slot := token }

/-- Without a token the key itself is sent. -/
def authHeader : AuthProgram ν (Option Text) :=
  match client.apiKey with
  | none => pure none
  | some apiKey => do
      let wire ← Proc.get
      match wire.slot with
      | some token => pure (some (text "Bearer " ++ token))
      | none => do
          match ← Proc.attempt (client.exchangeToken urls apiKey) with
          | .ok token => do
              setSlot (some token)
              pure (some (text "Bearer " ++ token))
          | .error _ => pure (some (text "Bearer " ++ apiKey))

/-- One attempt of a request to an address behind the base URL. -/
def attempt (rest : Text) : AuthProgram ν AuthReply := do
  let authorization ← client.authHeader urls
  match urls.parse (client.baseUrl ++ '/' :: rest) with
  | none => Proc.throw .transport
  | some url => sendFollowingAuthRedirects urls 5 ⟨url, authorization, none⟩

/-- A refused token is forgotten, and the request is sent once more. -/
def authedSend (rest : Text) : AuthProgram ν AuthReply := do
  let reply ← client.attempt urls rest
  match reply with
  | .answered 401 _ _ => do
      setSlot none
      client.attempt urls rest
  | _ => pure reply

def uploadChunk (hashHex : Text) : AuthProgram ν Unit := do
  let reply ← client.authedSend urls (text "blobs/chunks/" ++ hashHex)
  match reply with
  | .answered status _ _ => if isSuccess status = true then pure () else Proc.throw (.refused status [])
  | .failed => Proc.throw .transport

end RemoteClient

/-- The calls of a client. Between them, other clients of the connection change the token that they share. -/
inductive RemoteCall where
  | authedSend (rest : Text)
  | uploadChunk (hashHex : Text)
  | exchangeToken (apiKey : Text)
  | shared (token : Option Text)

def RemoteCall.perform (client : RemoteClient) : RemoteCall → AuthProgram ν Unit
  | .authedSend rest => do
      let _ ← client.authedSend urls rest
      pure ()
  | .uploadChunk hashHex => client.uploadChunk urls hashHex
  | .exchangeToken apiKey => do
      let _ ← client.exchangeToken urls apiKey
      pure ()
  | .shared token => RemoteClient.setSlot token

def AuthWire.after (client : RemoteClient) (calls : List RemoteCall) (wire : AuthWire ν) : AuthWire ν :=
  calls.foldl (fun wire call => (call.perform urls client wire).2) wire

def isSameHostHttpsUpgrade (baseUrl target : ν) : Bool :=
  if urls.scheme baseUrl ≠ text "http" ∨ urls.scheme target ≠ text "https" ∨
      urls.hostStr target ≠ urls.hostStr baseUrl then false
  else match urls.port baseUrl, urls.port target with
    | none, none => true
    | some left, some right => decide (left = right) || decide (left = 80 ∧ right = 443)
    | some left, none => decide (left = 80)
    | none, some right => decide (right = 443)

end AeordbSync

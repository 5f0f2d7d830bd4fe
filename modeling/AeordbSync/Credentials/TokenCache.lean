import AeordbSync.Library.Runs
import AeordbSync.Credentials.Client

namespace AeordbSync
open Characters Effect Persisted Runs

/-- The address and the key that a client works with. -/
structure AuthSettings where
  baseUrl : Text
  apiKey : Text
  deriving DecidableEq

/-- A token, and the settings of the client that exchanged a key for it. -/
structure MintedToken where
  token : Text
  settings : AuthSettings
  deriving DecidableEq

/-- What a header is made of. -/
inductive Credential where
  | token (minted : MintedToken)
  | key (apiKey : Text)
  deriving DecidableEq

namespace Credential

def header : Credential → Text
  | .token minted => text "Bearer " ++ minted.token
  | .key apiKey => text "Bearer " ++ apiKey

def minted? : Credential → Option MintedToken
  | .token minted => some minted
  | .key _ => none

end Credential

/-- How far one attempt of a request has come. -/
inductive RequestStage where
  | preparing
  | exchanging (apiKey : Text)
  | sending (credential : Option Credential)
  | waiting
  | ended
  deriving DecidableEq

namespace RemoteClient

variable (client : RemoteClient)

def settings : Option AuthSettings := client.apiKey.map (AuthSettings.mk client.baseUrl)

/-- A header belongs to a client when it is made of its key, or of a token that was minted with its settings. -/
def Owns : Option Credential → Prop
  | none => client.apiKey = none
  | some (.token minted) => client.settings = some minted.settings
  | some (.key apiKey) => client.apiKey = some apiKey

instance (credential : Option Credential) : Decidable (client.Owns credential) :=
  match credential with
  | none => inferInstanceAs (Decidable (_ = _))
  | some (.token _) => inferInstanceAs (Decidable (_ = _))
  | some (.key _) => inferInstanceAs (Decidable (_ = _))

/-- The first part of `authHeader` looks into the slot. -/
def lookUp (slot : Option MintedToken) : RequestStage :=
  match client.apiKey with
  | none => .sending none
  | some apiKey => match slot with
      | some minted => .sending (some (.token minted))
      | none => .exchanging apiKey

/-- The second part has the outcome of the exchange. -/
def exchanged (apiKey : Text) (answer : Option Text) : Credential :=
  match answer with
  | some token => .token ⟨token, client.baseUrl, apiKey⟩
  | none => .key apiKey

variable {ν : Type} {urls : UrlLibrary ν} {client} {slot : Option MintedToken} {wire : AuthWire ν}

/-- Where the first part finds a header, `authHeader` answers it. -/
theorem authHeader_found {credential : Option Credential} (held : wire.slot = slot.map MintedToken.token)
    (found : client.lookUp slot = .sending credential) :
    client.authHeader urls wire = (.ok (credential.map Credential.header), wire) := by
  unfold lookUp at found
  cases keyed : client.apiKey with
  | none =>
      simp only [keyed, RequestStage.sending.injEq] at found
      subst found
      simp [authHeader, keyed]
  | some apiKey => cases slot with
      | none => simp [keyed] at found
      | some minted =>
          simp only [keyed, RequestStage.sending.injEq] at found
          subst found
          have present : wire.slot = some minted.token := held
          simp [authHeader, keyed, Proc.bind_apply, present, Credential.header]

/-- Where it does not, `authHeader` answers what the second part makes of the exchange. -/
theorem authHeader_exchanged {apiKey : Text} (held : wire.slot = slot.map MintedToken.token)
    (missing : client.lookUp slot = .exchanging apiKey) :
    (client.authHeader urls wire).1 =
        .ok (some (client.exchanged apiKey (client.exchangeToken urls apiKey wire).1.toOption).header) ∧
      (client.authHeader urls wire).2.slot =
        ((client.exchanged apiKey (client.exchangeToken urls apiKey wire).1.toOption).minted?.map
          MintedToken.token).or (client.exchangeToken urls apiKey wire).2.slot := by
  unfold lookUp at missing
  cases keyed : client.apiKey with
  | none => simp [keyed] at missing
  | some own => cases slot with
      | some minted => simp [keyed] at missing
      | none =>
          simp only [keyed, RequestStage.exchanging.injEq] at missing
          subst missing
          have absent : wire.slot = none := held
          cases answer : client.exchangeToken urls own wire with
          | mk outcome next => cases outcome with
              | ok token =>
                  simp [authHeader, keyed, Proc.bind_apply, absent, Proc.attempt, answer, setSlot, exchanged,
                    Credential.header, Credential.minted?, Except.toOption]
              | error error =>
                  simp [authHeader, keyed, Proc.bind_apply, absent, Proc.attempt, answer, exchanged,
                    Credential.header, Credential.minted?, Except.toOption]

end RemoteClient

/-- A request of a client, and the headers that it was sent with. -/
structure ClientRequest where
  connection : RemoteConnection
  retries : Bool
  stage : RequestStage
  sent : List (Option Credential)

/-- The reply to a request is only asked for its status. -/
inductive RequestEvent where
  | lookUp
  | exchanged (answer : Option Text)
  | send
  | replied (status : Option Nat)

namespace ClientRequest

/-- A client is made of the connection as it was read. -/
def client (request : ClientRequest) : RemoteClient := .fromConnection request.connection

/-- A request may look into the slot, or store a token in it, until its last attempt is sent. -/
def pending (request : ClientRequest) : Bool :=
  match request.stage with
  | .preparing => true
  | .exchanging _ => true
  | .sending _ => request.retries
  | .waiting => request.retries
  | .ended => false

/-- The settings with which a request still uses the slot. -/
def needs (request : ClientRequest) : Option AuthSettings :=
  if request.pending then request.client.settings else none

/-- One step of a request changes the request and the slot of its connection. -/
def advance (request : ClientRequest) (slot : Option MintedToken) :
    RequestEvent → Option (ClientRequest × Option MintedToken)
  | .lookUp => match request.stage with
      | .preparing => some ({ request with stage := request.client.lookUp slot }, slot)
      | _ => none
  | .exchanged answer => match request.stage with
      | .exchanging apiKey =>
          let credential := request.client.exchanged apiKey answer
          some ({ request with stage := .sending (some credential) }, credential.minted?.or slot)
      | _ => none
  | .send => match request.stage with
      | .sending credential => some ({ request with stage := .waiting, sent := request.sent ++ [credential] }, slot)
      | _ => none
  | .replied status => match request.stage with
      | .waiting =>
          if status = some 401 ∧ request.retries = true then
            some ({ request with stage := .preparing, retries := false }, none)
          else some ({ request with stage := .ended }, slot)
      | _ => none

/-- What a request holds is its own: the key that it exchanges, the header that it sends and those it has sent. -/
structure Fits (request : ClientRequest) : Prop where
  exchanging : ∀ apiKey, request.stage = .exchanging apiKey → request.client.apiKey = some apiKey
  sending : ∀ credential, request.stage = .sending credential → request.client.Owns credential
  sent : ∀ credential ∈ request.sent, request.client.Owns credential

variable {request next : ClientRequest} {slot after : Option MintedToken} {event : RequestEvent}

theorem needs_eq_some {a : AuthSettings} :
    request.needs = some a ↔ request.pending = true ∧ request.client.settings = some a := by
  unfold needs
  split <;> simp_all

/-- What a step of a request can do. -/
theorem advance_cases (taken : request.advance slot event = some (next, after)) :
    (request.stage = .preparing ∧ next = { request with stage := request.client.lookUp slot } ∧ after = slot) ∨
    (∃ apiKey answer, request.stage = .exchanging apiKey ∧
      next = { request with stage := .sending (some (request.client.exchanged apiKey answer)) } ∧
      after = (request.client.exchanged apiKey answer).minted?.or slot) ∨
    (∃ credential, request.stage = .sending credential ∧
      next = { request with stage := .waiting, sent := request.sent ++ [credential] } ∧ after = slot) ∨
    (request.stage = .waiting ∧ request.retries = true ∧
      next = { request with stage := .preparing, retries := false } ∧ after = none) ∨
    (request.stage = .waiting ∧ next = { request with stage := .ended } ∧ after = slot) := by
  unfold advance at taken
  cases event with
  | lookUp =>
      cases staged : request.stage <;> simp_all
      obtain ⟨rfl, rfl⟩ := taken
      rfl
  | exchanged answer =>
      cases staged : request.stage <;> simp_all
      exact ⟨answer, taken.1.symm, taken.2.symm⟩
  | send => cases staged : request.stage <;> simp_all
  | replied status =>
      cases staged : request.stage <;> simp_all
      split at taken <;> simp_all

theorem advance_connection (taken : request.advance slot event = some (next, after)) :
    next.connection = request.connection := by
  obtain ⟨_, rfl, _⟩ | ⟨_, _, _, rfl, _⟩ | ⟨_, _, rfl, _⟩ | ⟨_, _, rfl, _⟩ | ⟨_, rfl, _⟩ := advance_cases taken <;> rfl

theorem advance_client (taken : request.advance slot event = some (next, after)) :
    next.client = request.client := by
  simp only [client, advance_connection taken]

/-- A step brings no settings into use that were not in use before. -/
theorem advance_pending (taken : request.advance slot event = some (next, after))
    (pending : next.pending = true) : request.pending = true := by
  obtain ⟨staged, rfl, _⟩ | ⟨_, _, staged, rfl, _⟩ | ⟨_, staged, rfl, _⟩ | ⟨staged, retries, rfl, _⟩ |
    ⟨staged, rfl, _⟩ := advance_cases taken
  · simp [ClientRequest.pending, staged]
  · simp [ClientRequest.pending, staged]
  · simpa [ClientRequest.pending, staged] using pending
  · simpa [ClientRequest.pending, staged] using retries
  · simp [ClientRequest.pending] at pending

theorem advance_needs {a : AuthSettings} (taken : request.advance slot event = some (next, after))
    (needed : next.needs = some a) : request.needs = some a := by
  have holds := needs_eq_some.mp needed
  rw [advance_client taken] at holds
  exact needs_eq_some.mpr ⟨advance_pending taken holds.1, holds.2⟩

/-- The token in the slot afterwards was there before, or has the settings of the request. -/
theorem advance_slot {minted : MintedToken} (taken : request.advance slot event = some (next, after))
    (fits : request.Fits) (present : after = some minted) :
    slot = some minted ∨ request.needs = some minted.settings := by
  obtain ⟨_, _, rfl⟩ | ⟨apiKey, answer, staged, _, rfl⟩ | ⟨_, _, _, rfl⟩ | ⟨_, _, _, rfl⟩ | ⟨_, _, rfl⟩ :=
    advance_cases taken
  · exact .inl present
  · cases answer with
    | none => exact .inl present
    | some token =>
        right
        have keyed := fits.exchanging apiKey staged
        cases present
        apply needs_eq_some.mpr
        simp [pending, staged, RemoteClient.settings, keyed]
  · exact .inl present
  · cases present
  · exact .inl present

end ClientRequest

/-- A header that is found in the slot belongs to a client that agrees with the slot. -/
theorem RemoteClient.lookUp_owns {client : RemoteClient} {slot : Option MintedToken}
    {credential : Option Credential} (found : client.lookUp slot = .sending credential)
    (agreed : ∀ minted settings, slot = some minted → client.settings = some settings →
      minted.settings = settings) :
    client.Owns credential := by
  unfold lookUp at found
  cases keyed : client.apiKey with
  | none =>
      simp only [keyed, RequestStage.sending.injEq] at found
      subst found
      exact keyed
  | some apiKey => cases slot with
      | none => simp [keyed] at found
      | some minted =>
          simp only [keyed, RequestStage.sending.injEq] at found
          subst found
          have settings : client.settings = some ⟨client.baseUrl, apiKey⟩ := by simp [RemoteClient.settings, keyed]
          show client.settings = some minted.settings
          rw [settings, agreed minted _ rfl settings]

theorem RemoteClient.lookUp_exchanging {client : RemoteClient} {slot : Option MintedToken} {apiKey : Text}
    (missing : client.lookUp slot = .exchanging apiKey) : client.apiKey = some apiKey := by
  unfold lookUp at missing
  cases keyed : client.apiKey with
  | none => simp [keyed] at missing
  | some own => cases slot <;> simp_all

theorem RemoteClient.exchanged_owns {client : RemoteClient} {apiKey : Text}
    (keyed : client.apiKey = some apiKey) (answer : Option Text) :
    client.Owns (some (client.exchanged apiKey answer)) := by
  cases answer with
  | none => exact keyed
  | some token => simp [exchanged, Owns, settings, keyed]

/-- A request that agrees with the slot keeps to its own credentials. -/
theorem ClientRequest.advance_fits {request next : ClientRequest} {slot after : Option MintedToken}
    {event : RequestEvent} (taken : request.advance slot event = some (next, after)) (fits : request.Fits)
    (agreed : ∀ minted settings, slot = some minted → request.needs = some settings →
      minted.settings = settings) :
    next.Fits := by
  obtain ⟨staged, rfl, _⟩ | ⟨apiKey, answer, staged, rfl, _⟩ | ⟨credential, staged, rfl, _⟩ |
    ⟨_, _, rfl, _⟩ | ⟨_, rfl, _⟩ := advance_cases taken
  · have pending : request.pending = true := by simp [ClientRequest.pending, staged]
    exact {
      exchanging := fun apiKey missing => RemoteClient.lookUp_exchanging missing
      sending := fun credential found => RemoteClient.lookUp_owns found fun minted settings present own =>
        agreed minted settings present (needs_eq_some.mpr ⟨pending, own⟩)
      sent := fits.sent }
  · exact {
      exchanging := fun apiKey missing => by cases missing
      sending := fun credential found => by
        cases found
        exact RemoteClient.exchanged_owns (fits.exchanging apiKey staged) answer
      sent := fits.sent }
  · exact {
      exchanging := fun apiKey missing => by cases missing
      sending := fun credential found => by cases found
      sent := fun sent member => by
        rcases List.mem_append.mp member with earlier | last
        · exact fits.sent sent earlier
        · rw [List.mem_singleton.mp last]
          exact fits.sending credential staged }
  · exact {
      exchanging := fun apiKey missing => by cases missing
      sending := fun credential found => by cases found
      sent := fits.sent }
  · exact {
      exchanging := fun apiKey missing => by cases missing
      sending := fun credential found => by cases found
      sent := fits.sent }

/-- The configuration, the connections that were read from it, the slots of the cache, the requests, and the
connections whose address was upgraded and whose slot is still to be emptied. -/
structure SharedClients where
  store : ConfigStore
  snapshots : List RemoteConnection
  slots : Text → Option MintedToken
  requests : List ClientRequest
  upgraded : List Text

inductive ClientStep where
  | create (request : CreateConnectionRequest) (id : Text) (now : Int) (fault : Option SaveFault)
  | update (id : Text) (request : UpdateConnectionRequest) (now : Int) (fault : Option SaveFault)
  | delete (id : Text) (fault : Option SaveFault)
  | upgrade (id : Text) (base : Text) (now : Int) (fault : Option SaveFault)
  | drain (id : Text)
  | read (id : Text)
  | begin (connection : RemoteConnection) (retries : Bool)
  | advance (number : Nat) (event : RequestEvent)

namespace SharedClients

def start (store : ConfigStore) : SharedClients := ⟨store, [], fun _ => none, [], []⟩

def withStore (s : SharedClients) (store : ConfigStore) : SharedClients := { s with store := store }

def setSlot (s : SharedClients) (id : Text) (slot : Option MintedToken) : SharedClients :=
  { s with slots := Function.update s.slots id slot }

def begun (s : SharedClients) (connection : RemoteConnection) (retries : Bool) : SharedClients :=
  { s with requests := s.requests ++ [⟨connection, retries, .preparing, []⟩] }

def setRequest (s : SharedClients) (number : Nat) (request : ClientRequest) (slot : Option MintedToken) :
    SharedClients :=
  { s.setSlot request.connection.id slot with requests := s.requests.set number request }

def advance (s : SharedClients) (number : Nat) (event : RequestEvent) : Option SharedClients := do
  let request ← s.requests[number]?
  let (next, slot) ← request.advance (s.slots request.connection.id) event
  pure (s.setRequest number next slot)

/-- A connection that was read is used for as long as its owner keeps it. -/
def step (format : ConfigFormat) (s : SharedClients) : ClientStep → Option SharedClients
  | .create request id now fault =>
      some (s.withStore (ConnectionManager.create format fault request id now s.store).2)
  | .update id request now fault =>
      some (s.withStore (ConnectionManager.update format fault id request now s.store).2)
  | .delete id fault => some (s.withStore (ConnectionManager.delete format fault id s.store).2)
  | .upgrade id base now fault =>
      match ConnectionManager.update format fault id ⟨none, some base, none, none, none⟩ now s.store with
      | (.ok _, store) => some { s.withStore store with upgraded := id :: s.upgraded }
      | (.error _, store) => some (s.withStore store)
  | .drain id =>
      if id ∈ s.upgraded then some { s.setSlot id none with upgraded := s.upgraded.erase id } else none
  | .read id => match (ConnectionManager.get id s.store).1 with
      | .ok (some connection) => some { s with snapshots := connection :: s.snapshots }
      | _ => some s
  | .begin connection retries =>
      if connection ∈ s.snapshots then some (s.begun connection retries) else none
  | .advance number event => s.advance number event

/-- The settings of the token in a slot, and of the requests that may still use the slot. -/
def inUse (s : SharedClients) (id : Text) : List AuthSettings :=
  ((s.slots id).map MintedToken.settings).toList ++
    (s.requests.filter fun request => request.connection.id = id).filterMap ClientRequest.needs

/-- A request begins with other settings than before once the slot is empty and the earlier requests need it
no more. -/
def Settled (s : SharedClients) : ClientStep → Prop
  | .begin connection _ => ∀ settings ∈ (RemoteClient.fromConnection connection).settings,
      ∀ other ∈ s.inUse connection.id, other = settings
  | _ => True

instance (s : SharedClients) (action : ClientStep) : Decidable (s.Settled action) := by
  cases action <;> unfold Settled <;> infer_instance

/-- Every header that was sent belongs to the client that sent it. -/
def Belonging (s : SharedClients) : Prop :=
  ∀ request ∈ s.requests, ∀ credential ∈ request.sent, request.client.Owns credential

structure Sound (s : SharedClients) : Prop where
  agreed : ∀ id, ∀ a ∈ s.inUse id, ∀ b ∈ s.inUse id, a = b
  fits : ∀ request ∈ s.requests, request.Fits

variable {s next : SharedClients} {format : ConfigFormat} {id : Text}

theorem mem_inUse {a : AuthSettings} :
    a ∈ s.inUse id ↔ (∃ minted, s.slots id = some minted ∧ minted.settings = a) ∨
      ∃ request ∈ s.requests, request.connection.id = id ∧ request.needs = some a := by
  simp [inUse, and_assoc]

/-- Nothing new is brought into use, and the requests keep to what is theirs. -/
theorem Sound.shrink (sound : s.Sound) (fewer : ∀ id, ∀ a ∈ next.inUse id, a ∈ s.inUse id)
    (fits : ∀ request ∈ next.requests, request.Fits) : next.Sound where
  agreed := fun id a used b also => sound.agreed id a (fewer id a used) b (fewer id b also)
  fits := fits

/-- An emptied slot takes nothing into use. -/
theorem Sound.emptied (sound : s.Sound) (requests : next.requests = s.requests)
    (slots : next.slots = Function.update s.slots id none) : next.Sound := by
  apply sound.shrink
  · intro other a used
    apply mem_inUse.mpr
    obtain ⟨minted, present, rfl⟩ | held := mem_inUse.mp used
    · by_cases same : other = id
      · simp [slots, same] at present
      · exact .inl ⟨minted, by simpa [slots, same] using present, rfl⟩
    · rw [requests] at held
      exact .inr held
  · rw [requests]
    exact sound.fits

theorem Sound.same (sound : s.Sound) (requests : next.requests = s.requests) (slots : next.slots = s.slots) :
    next.Sound := by
  apply sound.shrink
  · intro other a used
    simpa only [inUse, requests, slots] using used
  · rw [requests]
    exact sound.fits

/-- What a step of a request does to the state. -/
theorem advance_eq {number : Nat} {event : RequestEvent} (taken : s.advance number event = some next) :
    ∃ request after slot, s.requests[number]? = some request ∧
      request.advance (s.slots request.connection.id) event = some (after, slot) ∧
      next = s.setRequest number after slot := by
  obtain ⟨request, present, rest⟩ := Option.bind_eq_some_iff.mp taken
  obtain ⟨⟨after, slot⟩, advanced, last⟩ := Option.bind_eq_some_iff.mp rest
  cases last
  exact ⟨request, after, slot, present, advanced, rfl⟩

theorem Sound.advance {number : Nat} {event : RequestEvent} (sound : s.Sound)
    (taken : s.advance number event = some next) : next.Sound := by
  obtain ⟨request, after, slot, present, advanced, rfl⟩ := advance_eq taken
  have member : request ∈ s.requests := List.mem_of_getElem? present
  have fits := sound.fits request member
  apply sound.shrink
  · intro id a used
    apply mem_inUse.mpr
    obtain ⟨minted, held, rfl⟩ | ⟨other, among, same, needed⟩ := mem_inUse.mp used
    · simp only [setRequest, setSlot, ClientRequest.advance_connection advanced] at held
      by_cases own : id = request.connection.id
      · subst own
        have filled : slot = some minted := by simpa using held
        obtain earlier | needed := ClientRequest.advance_slot advanced fits filled
        · exact .inl ⟨minted, earlier, rfl⟩
        · exact .inr ⟨request, member, rfl, needed⟩
      · exact .inl ⟨minted, by simpa [own] using held, rfl⟩
    · right
      obtain earlier | rfl := List.mem_or_eq_of_mem_set among
      · exact ⟨other, earlier, same, needed⟩
      · rw [ClientRequest.advance_connection advanced] at same
        exact ⟨request, member, same, ClientRequest.advance_needs advanced needed⟩
  · intro other among
    obtain earlier | rfl := List.mem_or_eq_of_mem_set among
    · exact sound.fits other earlier
    · apply ClientRequest.advance_fits advanced fits
      intro minted settings held needed
      apply sound.agreed request.connection.id
      · exact mem_inUse.mpr (.inl ⟨minted, held, rfl⟩)
      · exact mem_inUse.mpr (.inr ⟨request, member, rfl, needed⟩)

/-- A request that begins brings its settings into use. -/
theorem mem_inUse_begin {connection : RemoteConnection} {retries : Bool} {a : AuthSettings}
    (used : a ∈ (s.begun connection retries).inUse id) :
    a ∈ s.inUse id ∨ connection.id = id ∧ (RemoteClient.fromConnection connection).settings = some a := by
  obtain ⟨minted, held, rfl⟩ | ⟨request, among, same, needed⟩ := mem_inUse.mp used
  · exact .inl (mem_inUse.mpr (.inl ⟨minted, held, rfl⟩))
  · rcases List.mem_append.mp among with earlier | last
    · exact .inl (mem_inUse.mpr (.inr ⟨request, earlier, same, needed⟩))
    · rw [List.mem_singleton.mp last] at same needed
      exact .inr ⟨same, (ClientRequest.needs_eq_some.mp needed).2⟩

theorem Sound.begin {connection : RemoteConnection} {retries : Bool} (sound : s.Sound)
    (settled : s.Settled (.begin connection retries)) : (s.begun connection retries).Sound where
  agreed := by
    intro id a used b also
    rcases mem_inUse_begin used with older | ⟨rfl, own⟩
    · rcases mem_inUse_begin also with other | ⟨rfl, own⟩
      · exact sound.agreed id a older b other
      · exact settled b own a older
    · rcases mem_inUse_begin also with other | ⟨_, again⟩
      · exact (settled a own b other).symm
      · exact Option.some.inj (own.symm.trans again)
  fits := by
    intro request among
    rcases List.mem_append.mp among with earlier | last
    · exact sound.fits request earlier
    · rw [List.mem_singleton.mp last]
      exact {
        exchanging := fun apiKey missing => by cases missing
        sending := fun credential found => by cases found
        sent := fun credential member => by cases member }

/-- Every step that is settled keeps the state sound. -/
theorem Sound.step {action : ClientStep} (sound : s.Sound) (settled : s.Settled action)
    (taken : step format s action = some next) : next.Sound := by
  cases action with
  | create request id now fault =>
      cases taken
      exact sound.same rfl rfl
  | update id request now fault =>
      cases taken
      exact sound.same rfl rfl
  | delete id fault =>
      cases taken
      exact sound.same rfl rfl
  | upgrade id base now fault =>
      simp only [SharedClients.step] at taken
      split at taken <;> cases taken <;> exact sound.same rfl rfl
  | drain id =>
      simp only [SharedClients.step] at taken
      split at taken
      · cases taken
        exact sound.emptied rfl rfl
      · cases taken
  | read id =>
      simp only [SharedClients.step] at taken
      split at taken <;> cases taken
      · exact sound.same rfl rfl
      · exact sound
  | begin connection retries =>
      simp only [SharedClients.step] at taken
      split at taken
      · cases taken
        exact sound.begin settled
      · cases taken
  | advance number event => exact sound.advance taken

theorem Sound.belonging (sound : s.Sound) : s.Belonging := fun request member =>
  (sound.fits request member).sent

theorem sound_start (store : ConfigStore) : (start store).Sound where
  agreed := fun _ a used => by simp [inUse, start] at used
  fits := fun request member => by cases member

theorem Sound.run {actions : List ClientStep} (sound : s.Sound)
    (run : Run (SharedClients.step format) Settled s actions next) : next.Sound :=
  run.invariant (fun _ _ _ sound settled taken => sound.step settled taken) sound

/-- A state from which settled steps lead to a header that is not the sender's own. -/
def Leaks (format : ConfigFormat) (s : SharedClients) : Prop :=
  ∃ more last, Run (SharedClients.step format) Settled s more last ∧ ¬ last.Belonging

theorem Leaks.before {number : Nat} {request after : ClientRequest} {slot : Option MintedToken}
    (event : RequestEvent) (leaks : Leaks format (s.setRequest number after slot))
    (present : s.requests[number]? = some request)
    (advanced : request.advance (s.slots request.connection.id) event = some (after, slot)) :
    Leaks format s := by
  obtain ⟨more, last, run, leaked⟩ := leaks
  refine ⟨.advance number event :: more, last, Run.cons ?_ trivial run, leaked⟩
  show s.advance number event = _
  simp [SharedClients.advance, present, advanced]

theorem setRequest_same {number : Nat} {request : ClientRequest} (present : s.requests[number]? = some request)
    (after : ClientRequest) (slot : Option MintedToken) :
    (s.setRequest number after slot).requests[number]? = some after := by
  have size := (List.getElem?_eq_some_iff.mp present).1
  simp [setRequest, size]

theorem setRequest_other {number other : Nat} (differs : number ≠ other) (after : ClientRequest)
    (slot : Option MintedToken) : (s.setRequest number after slot).requests[other]? = s.requests[other]? := by
  simp [setRequest, differs]

@[simp] theorem setRequest_slot (number : Nat) (after : ClientRequest) (slot : Option MintedToken) :
    (s.setRequest number after slot).slots after.connection.id = slot := by
  simp [setRequest, setSlot]

section Stale

variable {fresh stale : Nat} {request : ClientRequest} {a : AuthSettings}
  (present : s.requests[fresh]? = some request) (preparing : request.stage = .preparing)
  (own : request.client.settings = some a)
include present preparing own

/-- A token of other settings in the slot is sent by the request that looks there next. -/
theorem leaks_slot {minted : MintedToken} (held : s.slots request.connection.id = some minted)
    (foreign : minted.settings ≠ a) : Leaks format s := by
  obtain ⟨apiKey, keyed, _⟩ := Option.map_eq_some_iff.mp own
  have found : request.client.lookUp (s.slots request.connection.id) = .sending (some (.token minted)) := by
    simp [RemoteClient.lookUp, keyed, held]
  have looked : request.advance (s.slots request.connection.id) .lookUp =
      some ({ request with stage := .sending (some (.token minted)) }, s.slots request.connection.id) := by
    simp only [ClientRequest.advance, preparing, found]
  have first := setRequest_same present { request with stage := .sending (some (.token minted)) }
    (s.slots request.connection.id)
  have last := setRequest_same first
    { request with stage := .waiting, sent := request.sent ++ [some (.token minted)] }
    (s.slots request.connection.id)
  apply Leaks.before .lookUp _ present looked
  apply Leaks.before .send _ first rfl
  rw [setRequest_slot]
  refine ⟨[], _, .nil _, fun belonging => foreign ?_⟩
  have sent : request.client.Owns (some (.token minted)) :=
    belonging _ (List.mem_of_getElem? last) _ (by simp)
  have same : request.client.settings = some minted.settings := sent
  rw [own] at same
  exact (Option.some.inj same).symm

variable {other : ClientRequest} {b : AuthSettings} (among : s.requests[stale]? = some other)
  (apart : stale ≠ fresh) (shared : other.connection.id = request.connection.id)
  (theirs : other.client.settings = some b) (foreign : b ≠ a)
include among apart shared theirs foreign

/-- So is the token of an exchange of other settings that ends before the request looks into the slot. -/
theorem leaks_exchanging {apiKey : Text} (exchanging : other.stage = .exchanging apiKey)
    (keyed : other.client.apiKey = some apiKey) : Leaks format s := by
  have stored : other.advance (s.slots other.connection.id) (.exchanged (some [])) =
      some ({ other with stage := .sending (some (other.client.exchanged apiKey (some []))) },
        some ⟨[], other.client.baseUrl, apiKey⟩) := by
    simp only [ClientRequest.advance, exchanging]
    rfl
  apply Leaks.before (.exchanged (some [])) _ among stored
  apply leaks_slot ((setRequest_other apart _ _).trans present) preparing own
  · rw [← shared]
    exact setRequest_slot ..
  · have settings : other.client.settings = some ⟨other.client.baseUrl, apiKey⟩ := by
      simp [RemoteClient.settings, keyed]
    rw [theirs] at settings
    rwa [← Option.some.inj settings]

theorem leaks_preparing (earlier : other.stage = .preparing) (empty : s.slots other.connection.id = none) :
    Leaks format s := by
  obtain ⟨apiKey, keyed, _⟩ := Option.map_eq_some_iff.mp theirs
  have looked : other.advance (s.slots other.connection.id) .lookUp =
      some ({ other with stage := .exchanging apiKey }, s.slots other.connection.id) := by
    simp only [ClientRequest.advance, earlier, RemoteClient.lookUp, keyed, empty]
  have later := setRequest_same among { other with stage := .exchanging apiKey } (s.slots other.connection.id)
  apply Leaks.before .lookUp _ among looked
  exact leaks_exchanging ((setRequest_other apart _ _).trans present) preparing own later apart shared theirs
    foreign rfl keyed

/-- A refused request empties the slot and exchanges its key again. -/
theorem leaks_waiting (waiting : other.stage = .waiting) (retries : other.retries = true) : Leaks format s := by
  have refused : other.advance (s.slots other.connection.id) (.replied (some 401)) =
      some ({ other with stage := .preparing, retries := false }, none) := by
    simp [ClientRequest.advance, waiting, retries]
  have later := setRequest_same among { other with stage := .preparing, retries := false } none
  apply Leaks.before (.replied (some 401)) _ among refused
  exact leaks_preparing ((setRequest_other apart _ _).trans present) preparing own later apart shared theirs
    foreign rfl (setRequest_slot ..)

theorem leaks_sending {credential : Option Credential} (sending : other.stage = .sending credential)
    (retries : other.retries = true) : Leaks format s := by
  have sent : other.advance (s.slots other.connection.id) .send =
      some ({ other with stage := .waiting, sent := other.sent ++ [credential] },
        s.slots other.connection.id) := by
    simp only [ClientRequest.advance, sending]
  have later := setRequest_same among
    { other with stage := .waiting, sent := other.sent ++ [credential] } (s.slots other.connection.id)
  apply Leaks.before .send _ among sent
  exact leaks_waiting ((setRequest_other apart _ _).trans present) preparing own later apart shared theirs
    foreign rfl retries

end Stale

/-- A request that begins with other settings than those in use leads to a header that is not its own. -/
theorem Sound.leaks {connection : RemoteConnection} {retries : Bool} (sound : s.Sound)
    (unsettled : ¬ s.Settled (.begin connection retries)) : Leaks format (s.begun connection retries) := by
  simp only [Settled, not_forall] at unsettled
  obtain ⟨a, own, b, used, foreign⟩ := unsettled
  have present : (s.begun connection retries).requests[s.requests.length]? =
      some ⟨connection, retries, .preparing, []⟩ := by simp [begun]
  obtain ⟨minted, held, rfl⟩ | ⟨other, among, shared, needed⟩ := mem_inUse.mp used
  · exact leaks_slot present rfl own held foreign
  · obtain ⟨pending, theirs⟩ := ClientRequest.needs_eq_some.mp needed
    obtain ⟨stale, size, rfl⟩ := List.getElem_of_mem among
    have apart : stale ≠ s.requests.length := by omega
    have kept : (s.begun connection retries).requests[stale]? = some s.requests[stale] := by
      exact (List.getElem?_append_left size).trans (List.getElem?_eq_getElem size)
    cases staged : s.requests[stale].stage with
    | preparing =>
        cases held : s.slots connection.id with
        | none => exact leaks_preparing present rfl own kept apart shared theirs foreign staged (shared ▸ held)
        | some minted =>
            apply leaks_slot present rfl own held
            have same : minted.settings = b :=
              sound.agreed connection.id _ (mem_inUse.mpr (.inl ⟨minted, held, rfl⟩)) _ used
            rwa [same]
    | exchanging apiKey =>
        exact leaks_exchanging present rfl own kept apart shared theirs foreign staged
          ((sound.fits _ among).exchanging apiKey staged)
    | sending credential =>
        apply leaks_sending present rfl own kept apart shared theirs foreign staged
        simpa [ClientRequest.pending, staged] using pending
    | waiting =>
        apply leaks_waiting present rfl own kept apart shared theirs foreign staged
        simpa [ClientRequest.pending, staged] using pending
    | ended => simp [ClientRequest.pending, staged] at pending

/-- In every run of settled steps each header is the sender's own, and a further step is settled if and only if
this stays so in every way in which settled steps can follow it. -/
theorem belonging_iff_settled {store : ConfigStore} {actions : List ClientStep}
    (run : Run (SharedClients.step format) Settled (start store) actions s) :
    s.Belonging ∧ ∀ action next, SharedClients.step format s action = some next →
      (s.Settled action ↔
        ∀ more last, Run (SharedClients.step format) Settled next more last → last.Belonging) := by
  have sound := (sound_start store).run run
  refine ⟨sound.belonging, fun action next taken => ⟨fun settled more last later => ?_, fun always => ?_⟩⟩
  · exact ((sound.step settled taken).run later).belonging
  · by_contra unsettled
    cases action with
    | begin connection retries =>
        simp only [SharedClients.step] at taken
        split at taken
        · cases taken
          obtain ⟨more, last, later, leaked⟩ := @Sound.leaks _ format _ _ sound unsettled
          exact leaked (always more last later)
        · cases taken
    | _ => exact unsettled trivial

def keyedConfig : ClientConfig :=
  ⟨[⟨text "c1", text "vault", text "http://vault", .apiKey, some (text "k1"), none, 0, 0⟩], [], .initial⟩

def keyedFormat : ConfigFormat := ⟨text "config.yaml", fun _ => []⟩

def keyChange : UpdateConnectionRequest := ⟨none, none, none, some (some (text "k2")), none⟩

def keyedSnapshot (apiKey : String) (now : Int) : RemoteConnection :=
  ⟨text "c1", text "vault", text "http://vault", .apiKey, some (text apiKey), none, 0, now⟩

/-- A request that has its key exchanged and is answered. -/
def firstRequest : List ClientStep :=
  [.read (text "c1"), .begin (keyedSnapshot "k1" 0) true, .advance 0 .lookUp,
    .advance 0 (.exchanged (some (text "t1"))), .advance 0 .send, .advance 0 (.replied (some 200))]

/-- The address is upgraded and the slot emptied, after which the key is replaced and a request runs with it. -/
def rekeyedSteps : List ClientStep :=
  firstRequest ++ [.upgrade (text "c1") (text "http://vault") 5 none, .drain (text "c1"),
    .update (text "c1") keyChange 9 none, .read (text "c1"), .begin (keyedSnapshot "k2" 9) true,
    .advance 1 .lookUp, .advance 1 (.exchanged (some (text "t2"))), .advance 1 .send]

def replacedSteps : List ClientStep :=
  firstRequest ++ [.update (text "c1") keyChange 9 none, .read (text "c1"), .begin (keyedSnapshot "k2" 9) true,
    .advance 1 .lookUp, .advance 1 .send]

/-- The second request runs with the new key, and one with the old key would not be settled then. -/
theorem belonging_iff_settled_rekeyed : ∃ last,
    Run (SharedClients.step keyedFormat) Settled (start ⟨keyedConfig, none⟩) rekeyedSteps last ∧
      last.requests.length = 2 ∧ last.Belonging ∧
      ¬ ∀ more final, Run (SharedClients.step keyedFormat) Settled (last.begun (keyedSnapshot "k1" 0) true) more final →
        final.Belonging := by
  have ran : ∃ last, Run (SharedClients.step keyedFormat) Settled (start ⟨keyedConfig, none⟩) rekeyedSteps last ∧
      last.requests.length = 2 ∧ keyedSnapshot "k1" 0 ∈ last.snapshots ∧
      ¬ last.Settled (.begin (keyedSnapshot "k1" 0) true) :=
    ⟨_, run_of_checked rfl, by decide, by decide, by decide⟩
  obtain ⟨last, run, two, known, unsettled⟩ := ran
  obtain ⟨belonging, settled⟩ := belonging_iff_settled run
  have taken : SharedClients.step keyedFormat last (.begin (keyedSnapshot "k1" 0) true) =
      some (last.begun (keyedSnapshot "k1" 0) true) := by simp [SharedClients.step, known]
  exact ⟨last, run, two, belonging, fun always => unsettled ((settled _ _ taken).mpr always)⟩

/-- The key is replaced, and the request that is made with the new one carries the token of the old one. -/
theorem belonging_lost : ∃ last,
    Run (SharedClients.step keyedFormat) (fun _ _ => True) (start ⟨keyedConfig, none⟩) replacedSteps last ∧
      ¬ last.Belonging := by
  refine ⟨_, run_of_after rfl, ?_⟩
  intro belonging
  exact absurd (belonging _ (List.mem_cons_of_mem _ (.head _)) _ (.head _)) (by decide)

end SharedClients

end AeordbSync

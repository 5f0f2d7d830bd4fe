import AeordbSync.Library.Url
import AeordbSync.Credentials.Client

namespace AeordbSync
open Characters Effect

variable {ν : Type} (urls : UrlLibrary ν)

def AuthRequest.Credentialed (request : AuthRequest ν) : Prop :=
  request.authorization.isSome = true ∨ request.apiKey.isSome = true

instance (request : AuthRequest ν) : Decidable request.Credentialed := inferInstanceAs (Decidable (_ ∨ _))

/-- The address has the origin of the base URL, or is the upgrade of it to https. -/
def Addressed (baseUrl : Text) (url : ν) : Prop :=
  ∃ address, urls.parse baseUrl = some address ∧
    ((urls.scheme url = urls.scheme address ∧ urls.hostStr url = urls.hostStr address ∧
      urls.port url = urls.port address) ∨ isSameHostHttpsUpgrade urls address url = true)

instance (baseUrl : Text) (url : ν) : Decidable (Addressed urls baseUrl url) :=
  inferInstanceAs (Decidable (∃ address ∈ urls.parse baseUrl, _))

/-- Credentials are only sent to the host of the connection. -/
def CredentialsStay (baseUrl : Text) (exchanges : List (AuthExchange ν)) : Prop :=
  ∀ exchange ∈ exchanges, exchange.request.Credentialed → Addressed urls baseUrl exchange.request.url

/-- The base URL is one, and no redirect that is followed leads away from its host. -/
def RedirectsStay (baseUrl : Text) (exchanges : List (AuthExchange ν)) : Prop :=
  ∀ exchange ∈ exchanges, exchange.request.Credentialed → (urls.parse baseUrl).isSome = true ∧
    (0 < exchange.left → ∀ target, exchange.reply.target urls exchange.request.url = some target →
      Addressed urls baseUrl target)

section

variable {urls} {baseUrl : Text} {exchanges : List (AuthExchange ν)}

/-- The address is behind the base URL, or a redirect has led to it. -/
def Led (urls : UrlLibrary ν) (baseUrl : Text) (exchanges : List (AuthExchange ν)) (url : ν) : Prop :=
  (∃ rest, urls.parse (baseUrl ++ '/' :: rest) = some url) ∨
    ∃ exchange ∈ exchanges, exchange.request.Credentialed ∧ 0 < exchange.left ∧
      exchange.reply.target urls exchange.request.url = some url

/-- Every request was led to its address, and every redirect was followed, but one that is about to be. -/
structure Traced (urls : UrlLibrary ν) (baseUrl : Text) (pending : Option ν) (exchanges : List (AuthExchange ν)) : Prop where
  led : ∀ exchange ∈ exchanges, exchange.request.Credentialed → Led urls baseUrl exchanges exchange.request.url
  followed : ∀ exchange ∈ exchanges, exchange.request.Credentialed → 0 < exchange.left → ∀ target,
    exchange.reply.target urls exchange.request.url = some target →
      pending = some target ∨ ∃ other ∈ exchanges, other.request.Credentialed ∧ other.request.url = target

theorem Led.mono {url : ν} (led : Led urls baseUrl exchanges url) (more : List (AuthExchange ν)) :
    Led urls baseUrl (exchanges ++ more) url := by
  rcases led with first | ⟨exchange, inside, carries, left, leads⟩
  · exact .inl first
  · exact .inr ⟨exchange, List.mem_append_left more inside, carries, left, leads⟩

theorem Traced.expect (traced : Traced urls baseUrl none exchanges) (pending : Option ν) :
    Traced urls baseUrl pending exchanges := by
  refine ⟨traced.led, ?_⟩
  intro exchange inside carries left target leads
  rcases traced.followed exchange inside carries left target leads with impossible | served
  · cases impossible
  · exact .inr served

/-- The address of a request with credentials is expected. -/
def AuthRequest.pending (request : AuthRequest ν) : Option ν := if request.Credentialed then some request.url else none

/-- What is expected after a reply. -/
def AuthExchange.expected (urls : UrlLibrary ν) (exchange : AuthExchange ν) : Option ν :=
  if exchange.request.Credentialed ∧ 0 < exchange.left then exchange.reply.target urls exchange.request.url else none

theorem Traced.send {request : AuthRequest ν} (traced : Traced urls baseUrl request.pending exchanges)
    (led : request.Credentialed → Led urls baseUrl exchanges request.url) (left : Nat) (reply : AuthReply) :
    Traced urls baseUrl (AuthExchange.expected urls ⟨request, left, reply⟩) (exchanges ++ [⟨request, left, reply⟩]) := by
  constructor
  · intro exchange inside carries
    rcases List.mem_append.mp inside with old | new
    · exact (traced.led exchange old carries).mono _
    · rw [List.mem_singleton.mp new] at carries ⊢
      exact (led carries).mono _
  · intro exchange inside carries some target leads
    rcases List.mem_append.mp inside with old | new
    · rcases traced.followed exchange old carries some target leads with expected | ⟨other, served, more⟩
      · unfold AuthRequest.pending at expected
        split at expected
        next carrying =>
          refine .inr ⟨_, List.mem_append_right exchanges (List.mem_singleton_self _), carrying, ?_⟩
          exact Option.some.inj expected
        · cases expected
      · exact .inr ⟨other, List.mem_append_left _ served, more⟩
    · rw [List.mem_singleton.mp new] at carries some leads
      refine .inl ?_
      rw [AuthExchange.expected, if_pos ⟨carries, some⟩]
      exact leads

/-- A wire whose exchanges are traced. -/
def AuthWire.Traced (urls : UrlLibrary ν) (baseUrl : Text) (pending : Option ν) (wire : AuthWire ν) : Prop :=
  AeordbSync.Traced urls baseUrl pending wire.exchanges

/-- The next request may be sent. -/
def AuthWire.Ready (urls : UrlLibrary ν) (baseUrl : Text) (request : AuthRequest ν) (wire : AuthWire ν) : Prop :=
  wire.Traced urls baseUrl request.pending ∧
    (request.Credentialed → Led urls baseUrl wire.exchanges request.url)

theorem execute_traced (request : AuthRequest ν) (left : Nat) :
    Triple (AuthWire.Ready urls baseUrl request) (execute request left)
      (fun reply wire => wire.Traced urls baseUrl (AuthExchange.expected urls ⟨request, left, reply⟩) ∧
        ⟨request, left, reply⟩ ∈ wire.exchanges)
      (fun _ => AuthWire.Traced urls baseUrl none) := by
  intro wire ready
  have sent := ready.1.send ready.2 left (wire.replies.headD .failed)
  unfold execute
  cases reply : wire.replies.headD .failed with
  | failed =>
      rw [reply] at sent
      have nothing : AuthExchange.expected urls ⟨request, left, .failed⟩ = none := by
        unfold AuthExchange.expected
        split <;> rfl
      rw [nothing] at sent
      exact sent
  | answered status location token =>
      rw [reply] at sent
      exact ⟨sent, List.mem_append_right _ (List.mem_singleton_self _)⟩

/-- A redirect makes the request ready for its new address. -/
theorem ready_next {request : AuthRequest ν} {left : Nat} {reply : AuthReply} {next : ν} {wire : AuthWire ν}
    (some : 0 < left) (leads : reply.target urls request.url = .some next)
    (traced : wire.Traced urls baseUrl (AuthExchange.expected urls ⟨request, left, reply⟩))
    (sent : ⟨request, left, reply⟩ ∈ wire.exchanges) :
    wire.Ready urls baseUrl { request with url := next } := by
  constructor
  · by_cases carries : request.Credentialed
    · have expected : AuthExchange.expected urls ⟨request, left, reply⟩ =
          AuthRequest.pending { request with url := next } := by
        have still : AuthRequest.Credentialed { request with url := next } := carries
        rw [AuthExchange.expected, if_pos ⟨carries, some⟩, AuthRequest.pending, if_pos still]
        exact leads
      rw [← expected]
      exact traced
    · have expected : AuthExchange.expected urls ⟨request, left, reply⟩ = none := if_neg fun both => carries both.1
      rw [expected] at traced
      exact Traced.expect traced _
  · intro carries
    exact .inr ⟨_, sent, carries, some, leads⟩

theorem expected_stop {request : AuthRequest ν} {left : Nat} {reply : AuthReply}
    (stops : left = 0 ∨ reply.target urls request.url = none) :
    AuthExchange.expected urls ⟨request, left, reply⟩ = none := by
  unfold AuthExchange.expected
  split
  next both =>
    rcases stops with rfl | nowhere
    · exact absurd both.2 (lt_irrefl 0)
    · exact nowhere
  · rfl

theorem sendFollowing_traced (left : Nat) (request : AuthRequest ν) :
    Triple (AuthWire.Ready urls baseUrl request) (sendFollowingAuthRedirects urls left request)
      (fun _ => AuthWire.Traced urls baseUrl none) (fun _ => AuthWire.Traced urls baseUrl none) := by
  induction left generalizing request with
  | zero =>
      apply (execute_traced request 0).strengthen
      rintro reply wire ⟨traced, -⟩
      rw [expected_stop (.inl rfl)] at traced
      exact traced
  | succ left ih =>
      apply Triple.bind (execute_traced request (left + 1))
      intro reply
      cases leads : reply.target urls request.url with
      | none =>
          apply Triple.ret
          rintro wire ⟨traced, -⟩
          rw [expected_stop (.inr leads)] at traced
          exact traced
      | some next =>
          apply (ih { request with url := next }).weaken
          rintro wire ⟨traced, sent⟩
          exact ready_next (Nat.succ_pos left) leads traced sent

/-- The address of the next post of the key. -/
def AuthWire.Posting (urls : UrlLibrary ν) (baseUrl apiKey current : Text) (wire : AuthWire ν) : Prop :=
  match urls.parse current with
  | none => wire.Traced urls baseUrl none
  | some url => wire.Ready urls baseUrl ⟨url, none, some apiKey⟩

theorem tokenOf_traced (status : Nat) (chain : List Text) (token : Option Text) :
    Triple (AuthWire.Traced urls baseUrl none) (RemoteClient.tokenOf status chain token)
      (fun _ => AuthWire.Traced urls baseUrl none) (fun _ => AuthWire.Traced urls baseUrl none) := by
  apply Triple.ite
  · intro _
    cases token with
    | none => exact Triple.throw fun _ traced => traced
    | some token => exact Triple.ret fun _ traced => traced
  · exact fun _ => Triple.throw fun _ traced => traced

theorem exchangeLoop_traced (laws : UrlLaws urls) (apiKey : Text) (left : Nat) (chain : List Text) (current : Text) :
    Triple (AuthWire.Posting urls baseUrl apiKey current) (RemoteClient.exchangeLoop urls apiKey left chain current)
      (fun _ => AuthWire.Traced urls baseUrl none) (fun _ => AuthWire.Traced urls baseUrl none) := by
  induction left generalizing chain current with
  | zero =>
      unfold AuthWire.Posting RemoteClient.exchangeLoop
      cases parsed : urls.parse current with
      | none => exact Triple.throw fun _ traced => traced
      | some url =>
          apply Triple.bind (execute_traced ⟨url, none, some apiKey⟩ 0)
          intro reply
          rw [expected_stop (.inl rfl)]
          apply Triple.weaken _ fun _ both => both.1
          cases reply with
          | failed => exact Triple.throw fun _ traced => traced
          | answered status location token =>
              apply Triple.ite
              · intro _
                cases location with
                | none => exact Triple.throw fun _ traced => traced
                | some location =>
                    dsimp only
                    cases urls.join url location with
                    | none => exact Triple.throw fun _ traced => traced
                    | some next => exact Triple.throw fun _ traced => traced
              · exact fun _ => tokenOf_traced status chain token
  | succ left ih =>
      unfold AuthWire.Posting RemoteClient.exchangeLoop
      cases parsed : urls.parse current with
      | none => exact Triple.throw fun _ traced => traced
      | some url =>
          apply Triple.bind (execute_traced ⟨url, none, some apiKey⟩ (left + 1))
          intro reply
          have ends : ∀ {α : Type} {x : AuthProgram ν α}, reply.target urls url = none →
              Triple (AuthWire.Traced urls baseUrl none) x (fun _ => AuthWire.Traced urls baseUrl none)
                (fun _ => AuthWire.Traced urls baseUrl none) →
              Triple (fun wire => wire.Traced urls baseUrl
                  (AuthExchange.expected urls ⟨⟨url, none, some apiKey⟩, left + 1, reply⟩) ∧
                    ⟨⟨url, none, some apiKey⟩, left + 1, reply⟩ ∈ wire.exchanges) x
                (fun _ => AuthWire.Traced urls baseUrl none) (fun _ => AuthWire.Traced urls baseUrl none) := by
            intro α x nowhere triple
            rw [expected_stop (.inr nowhere)]
            exact triple.weaken fun _ both => both.1
          cases reply with
          | failed => exact ends rfl (Triple.throw fun _ traced => traced)
          | answered status location token =>
              apply Triple.ite
              · intro redirects
                cases location with
                | none => exact ends rfl (Triple.throw fun _ traced => traced)
                | some location =>
                    have joined : (AuthReply.answered status (some location) token).target urls url =
                        urls.join url location := if_pos redirects
                    dsimp only
                    cases leads : urls.join url location with
                    | none =>
                        rw [leads] at joined
                        exact ends joined (Triple.throw fun _ traced => traced)
                    | some next =>
                        apply (ih (chain ++ [urls.display next]) (urls.display next)).weaken
                        rintro wire ⟨traced, sent⟩
                        rw [AuthWire.Posting, laws.display next]
                        exact ready_next (Nat.succ_pos left) (joined.trans leads) traced sent
              · intro stays
                have nowhere : (AuthReply.answered status location token).target urls url = none := by
                  cases location with
                  | none => rfl
                  | some location => exact if_neg stays
                exact ends nowhere (tokenOf_traced status chain token)

/-- Every program of the client keeps the exchanges traced. -/
def Traces (urls : UrlLibrary ν) (baseUrl : Text) {α : Type} (x : AuthProgram ν α) : Prop :=
  Triple (AuthWire.Traced urls baseUrl none) x (fun _ => AuthWire.Traced urls baseUrl none)
    (fun _ => AuthWire.Traced urls baseUrl none)

theorem ready_first {wire : AuthWire ν} {request : AuthRequest ν} {rest : Text}
    (parsed : urls.parse (baseUrl ++ '/' :: rest) = some request.url) (traced : wire.Traced urls baseUrl none) :
    wire.Ready urls baseUrl request :=
  ⟨Traced.expect traced _, fun _ => .inl ⟨rest, parsed⟩⟩

namespace RemoteClient

variable {client : RemoteClient}

theorem exchangeToken_traces (laws : UrlLaws urls) (apiKey : Text) :
    Traces urls client.baseUrl (client.exchangeToken urls apiKey) := by
  apply (exchangeLoop_traced laws apiKey 4 _ _).weaken
  intro wire traced
  unfold AuthWire.Posting
  cases parsed : urls.parse (client.baseUrl ++ '/' :: text "auth/token") with
  | none => exact traced
  | some url => exact ready_first parsed traced

theorem setSlot_traces (token : Option Text) : Traces urls baseUrl (setSlot token) :=
  Triple.modify fun _ traced => traced

theorem authHeader_traces (laws : UrlLaws urls) : Traces urls client.baseUrl (client.authHeader urls) := by
  unfold authHeader
  cases client.apiKey with
  | none => exact Triple.ret fun _ traced => traced
  | some apiKey =>
      apply Triple.bind (Triple.get fun _ traced => traced)
      intro wire
      cases wire.slot with
      | some token => exact Triple.ret fun _ traced => traced
      | none =>
          have exchanged : Triple (AuthWire.Traced urls client.baseUrl none)
              (Proc.attempt (client.exchangeToken urls apiKey)) (fun _ => AuthWire.Traced urls client.baseUrl none)
              (fun _ => AuthWire.Traced urls client.baseUrl none) :=
            Triple.attempt (Q := fun _ => AuthWire.Traced urls client.baseUrl none) (exchangeToken_traces laws apiKey)
          apply Triple.bind exchanged
          intro result
          cases result with
          | error error => exact Triple.ret fun _ traced => traced
          | ok token => exact Triple.seq (setSlot_traces _) (Triple.ret fun _ traced => traced)

theorem attempt_traces (laws : UrlLaws urls) (rest : Text) : Traces urls client.baseUrl (client.attempt urls rest) := by
  apply Triple.bind (authHeader_traces laws)
  intro authorization
  cases parsed : urls.parse (client.baseUrl ++ '/' :: rest) with
  | none => exact Triple.throw fun _ traced => traced
  | some url => exact (sendFollowing_traced 5 _).weaken fun _ traced => ready_first parsed traced

theorem authedSend_traces (laws : UrlLaws urls) (rest : Text) :
    Traces urls client.baseUrl (client.authedSend urls rest) := by
  apply Triple.bind (attempt_traces laws rest)
  intro reply
  split
  · exact Triple.seq (setSlot_traces none) (attempt_traces laws rest)
  · exact Triple.ret fun _ traced => traced

theorem uploadChunk_traces (laws : UrlLaws urls) (hashHex : Text) :
    Traces urls client.baseUrl (client.uploadChunk urls hashHex) := by
  apply Triple.bind (authedSend_traces laws _)
  intro reply
  cases reply with
  | failed => exact Triple.throw fun _ traced => traced
  | answered status location token =>
      exact Triple.ite (fun _ => Triple.ret fun _ traced => traced) fun _ => Triple.throw fun _ traced => traced

end RemoteClient

theorem perform_traces (laws : UrlLaws urls) (client : RemoteClient) (call : RemoteCall) :
    Traces urls client.baseUrl (call.perform urls client) := by
  cases call with
  | authedSend rest =>
      apply Triple.bind (RemoteClient.authedSend_traces laws rest)
      exact fun _ => Triple.ret fun _ traced => traced
  | uploadChunk hashHex => exact RemoteClient.uploadChunk_traces laws hashHex
  | exchangeToken apiKey =>
      apply Triple.bind (RemoteClient.exchangeToken_traces laws apiKey)
      exact fun _ => Triple.ret fun _ traced => traced
  | shared token => exact RemoteClient.setSlot_traces token

theorem after_traced (laws : UrlLaws urls) (client : RemoteClient) (calls : List RemoteCall) {wire : AuthWire ν}
    (traced : wire.Traced urls client.baseUrl none) :
    (wire.after urls client calls).Traced urls client.baseUrl none := by
  induction calls generalizing wire with
  | nil => exact traced
  | cons call later ih => exact ih ((perform_traces laws client call).reached traced)

theorem addressed_behind (laws : UrlLaws urls) {rest : Text} {url : ν} (valid : (urls.parse baseUrl).isSome = true)
    (parsed : urls.parse (baseUrl ++ '/' :: rest) = some url) : Addressed urls baseUrl url := by
  obtain ⟨address, known⟩ := Option.isSome_iff_exists.mp valid
  exact ⟨address, known, .inl (laws.origin baseUrl rest address url known parsed)⟩

/-- Whatever is called and replied, credentials stay with the host of the connection exactly when the redirects
that are followed with them do. -/
theorem credentialsStay_iff (laws : UrlLaws urls) (client : RemoteClient) (calls : List RemoteCall)
    (replies : List AuthReply) (slot : Option Text) :
    CredentialsStay urls client.baseUrl (AuthWire.after urls client calls ⟨replies, [], slot⟩).exchanges ↔
      RedirectsStay urls client.baseUrl (AuthWire.after urls client calls ⟨replies, [], slot⟩).exchanges := by
  have start : AuthWire.Traced urls client.baseUrl none ⟨replies, [], slot⟩ :=
    ⟨nofun, nofun⟩
  obtain ⟨led, followed⟩ := after_traced laws client calls start
  constructor
  · intro stay exchange inside carries
    obtain ⟨address, parsed, -⟩ := stay exchange inside carries
    refine ⟨by rw [parsed]; rfl, ?_⟩
    intro left target leads
    rcases followed exchange inside carries left target leads with impossible | ⟨other, served, carrying, rfl⟩
    · cases impossible
    · exact stay other served carrying
  · intro stay exchange inside carries
    rcases led exchange inside carries with ⟨rest, parsed⟩ | ⟨earlier, before, carrying, left, leads⟩
    · exact addressed_behind laws (stay exchange inside carries).1 parsed
    · exact (stay earlier before carrying).2 left _ leads

end

namespace UrlSample
open Url

def scheme (t : Text) : Text := t.takeWhile (· ≠ ':')

def authority (t : Text) : Text := (t.drop ((scheme t).length + 3)).takeWhile (!endsAuthority ·)

def IsUrl (t : Text) : Prop := scheme t ++ text "://" <+: t ∧ authority t ≠ []

instance (t : Text) : Decidable (IsUrl t) := inferInstanceAs (Decidable (_ ∧ _))

def parse (t : Text) : Option { t : Text // IsUrl t } := if valid : IsUrl t then some ⟨t, valid⟩ else none

/-- Addresses with a host, as they are written. -/
def sampleUrls : UrlLibrary { t : Text // IsUrl t } where
  parse := parse
  join url location :=
    if '/' ∈ location.head? then parse (scheme url.1 ++ text "://" ++ authority url.1 ++ location) else parse location
  display url := url.1
  scheme url := scheme url.1
  hostStr url := some ((authority url.1).takeWhile (· ≠ ':'))
  port url :=
    if ':' ∈ authority url.1 then
      some (((authority url.1).rtakeWhile (· ≠ ':')).foldl (fun n c => 10 * n + (c.toNat - 48)) 0)
    else none

theorem takeWhile_stop {p : Char → Bool} {c : Char} (stops : p c = false) (t rest : Text) :
    (t ++ c :: rest).takeWhile p = t.takeWhile p := by
  induction t with
  | nil => simp [stops]
  | cons d t ih => rw [List.cons_append, List.takeWhile_cons, List.takeWhile_cons, ih]

theorem origin_append {base rest : Text} (valid : IsUrl base) :
    scheme (base ++ '/' :: rest) = scheme base ∧ authority (base ++ '/' :: rest) = authority base := by
  obtain ⟨⟨more, split⟩, -⟩ := valid
  have colon : base = scheme base ++ ':' :: ('/' :: '/' :: more) := split.symm.trans (List.append_assoc _ _ _)
  have same : scheme (base ++ '/' :: rest) = scheme base := by
    obtain ⟨front, behind, rfl⟩ : ∃ front behind, base = front ++ ':' :: behind := ⟨_, _, colon⟩
    rw [List.append_assoc, List.cons_append]
    exact (takeWhile_stop (by decide) _ _).trans (takeWhile_stop (by decide) _ _).symm
  refine ⟨same, ?_⟩
  have long : (scheme base).length + 3 ≤ base.length := by
    have counted := congrArg List.length colon
    simp only [List.length_append, List.length_cons] at counted
    omega
  rw [authority, authority, same, List.drop_append_of_le_length long]
  exact takeWhile_stop (by decide) _ _

theorem sampleUrls_laws : UrlLaws sampleUrls := by
  constructor
  · intro base rest address url known parsed
    have parts : ∀ {t : Text} {found : { t : Text // IsUrl t }}, parse t = some found → found.1 = t := by
      intro t found equal
      unfold parse at equal
      split at equal
      · cases equal
        rfl
      · cases equal
    have first := parts known
    have second := parts parsed
    have origin := @origin_append _ rest address.2
    rw [first, ← second] at origin
    refine ⟨?_, ?_, ?_⟩ <;> simp only [sampleUrls, origin, first]
  · intro url
    exact dif_pos url.2

def client : RemoteClient := ⟨text "http://10.0.0.5:6830", some (text "aeor_k_5d21")⟩

/-- The first post of the key is redirected to another host, which answers with a token. -/
def replies : List AuthReply :=
  [.answered 302 (some (text "http://10.0.0.9/auth/token")) none, .answered 200 none (some (text "eyJhbGciOiJFZERTQSJ9")),
    .answered 200 none none]

def sent (replies : List AuthReply) : List (AuthExchange { t : Text // IsUrl t }) :=
  (AuthWire.after sampleUrls client [.authedSend (text "files/")] ⟨replies, [], none⟩).exchanges

example : (sent replies).map (fun exchange => (exchange.request.url.1, exchange.request.apiKey)) =
  [(text "http://10.0.0.5:6830/auth/token", client.apiKey), (text "http://10.0.0.9/auth/token", client.apiKey),
    (text "http://10.0.0.5:6830/files/", none)] := by decide +kernel

end UrlSample

open UrlSample in
/-- A redirect takes the key to a host that nobody has configured. -/
theorem credentialsStay_leaks : ¬ ∀ client calls replies slot,
    CredentialsStay sampleUrls (RemoteClient.baseUrl client) (AuthWire.after sampleUrls client calls ⟨replies, [], slot⟩).exchanges := by
  intro all
  have stay : ∀ exchange ∈ sent replies, exchange.request.Credentialed →
      Addressed sampleUrls client.baseUrl exchange.request.url := all client [.authedSend (text "files/")] replies none
  revert stay
  decide +kernel

open UrlSample in
theorem credentialsStay_iff_sample :
    CredentialsStay sampleUrls client.baseUrl (sent replies) ↔ RedirectsStay sampleUrls client.baseUrl (sent replies) :=
  credentialsStay_iff sampleUrls_laws client [.authedSend (text "files/")] replies none

end AeordbSync

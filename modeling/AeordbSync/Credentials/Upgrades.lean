import AeordbSync.Library.Runs
import AeordbSync.Configuration.Rerooting
import AeordbSync.Credentials.Client

namespace AeordbSync
open Characters Effect Persisted

/-- The other parts of a URL: what stands before the host, the path, and the query with the fragment. -/
structure UrlParts (ν : Type) extends UrlLibrary ν where
  userInfo : ν → Text
  path : ν → Text
  trailer : ν → Text

def portText : Option Nat → Text
  | none => []
  | some port => ':' :: decimal port

namespace UrlParts

variable {ν : Type} (urls : UrlParts ν)

def IsWeb (url : ν) : Prop := urls.scheme url = text "http" ∨ urls.scheme url = text "https"

/-- The scheme, the host and the port if it is not the one of the scheme. -/
def upgraded (target : ν) : Text :=
  text "https://" ++ ((urls.hostStr target).getD [] ++ portText (urls.port target))

/-- A URL is the https form of another one. -/
structure HttpsForm (old new : ν) : Prop where
  web : urls.IsWeb old
  secure : urls.scheme new = text "https"
  host : urls.hostStr new = urls.hostStr old
  port : urls.port new = urls.port old
  userInfo : urls.userInfo new = urls.userInfo old
  path : urls.path new = urls.path old
  trailer : urls.trailer new = urls.trailer old

/-- Nothing stands in a URL but its scheme, host and port. -/
structure OriginOnly (url : ν) : Prop where
  userInfo : urls.userInfo url = []
  path : urls.path url = ['/']
  trailer : urls.trailer url = []

/-- A web address has a host, the port of its scheme is left out, and its origin is an address too. -/
structure Laws : Prop where
  host : ∀ url, urls.IsWeb url → ∃ host, urls.hostStr url = some host ∧ host ≠ [] ∧
    ∀ c ∈ host, c ≠ '/' ∧ isWhitespace c = false
  httpPort : ∀ url, urls.scheme url = text "http" → urls.port url ≠ some 80
  httpsPort : ∀ url, urls.scheme url = text "https" → urls.port url ≠ some 443
  origin : ∀ url, urls.scheme url = text "https" → ∃ origin, urls.parse (urls.upgraded url) = some origin ∧
    urls.scheme origin = text "https" ∧ urls.hostStr origin = urls.hostStr url ∧
    urls.port origin = urls.port url ∧ urls.OriginOnly origin

end UrlParts

def RemoteConnection.baseUrl (connection : RemoteConnection) : Text := normalizeUrl connection.url

def RemoteConnection.probeUrl (connection : RemoteConnection) : Text := connection.baseUrl ++ text "/system/health"

/-- The reply to a probe, and where it leads if this can be read. -/
inductive ProbeReply where
  | failed
  | answered (status : Nat) (location : Option Text)

def urlRequest (url : Text) : UpdateConnectionRequest := ⟨none, some url, none, none, none⟩

/-- A connection that the probe has rewritten: as it was listed, as it stood at the write, and as it was left. -/
structure UrlRewrite where
  probed : RemoteConnection
  before : RemoteConnection
  after : RemoteConnection

/-- The connections that the probe still has to visit, and what it is about to write. -/
structure UrlProbe where
  store : ConfigStore
  pending : List RemoteConnection
  upgrade : Option (RemoteConnection × Text)
  rewrites : List UrlRewrite

/-- The steps of the probe, and between them the updates of others. -/
inductive ProbeAction where
  | probe (reply : ProbeReply)
  | write (fault : Option SaveFault) (now : Int)
  | edit (fault : Option SaveFault) (change : ConfigUpdate)

section

variable {ν : Type} (urls : UrlParts ν) (format : ConfigFormat)

/-- The new base URL of a connection, if the reply redirects to its own host under https. -/
def newBase (connection : RemoteConnection) : ProbeReply → Option Text
  | .answered status (some location) =>
      if text "https://" <+: connection.baseUrl ∨ ¬ (status = 301 ∨ status = 308) then none
      else match urls.parse connection.probeUrl with
        | none => none
        | some baseUrl => match urls.join baseUrl location with
            | none => none
            | some target =>
                if isSameHostHttpsUpgrade urls.toUrlLibrary baseUrl target = true then some (urls.upgraded target)
                else none
  | _ => none

namespace UrlProbe

/-- The connections are listed once at the start. -/
def start (store : ConfigStore) : UrlProbe where
  store := store
  pending := match (ConnectionManager.list store).1 with
    | .ok connections => connections
    | .error _ => []
  upgrade := none
  rewrites := []

def rewritten (probed : RemoteConnection) (before after : ConfigStore) : List UrlRewrite :=
  match before.memory.connection? probed.id, after.memory.connection? probed.id with
  | some old, some new => [⟨probed, old, new⟩]
  | _, _ => []

def step (s : UrlProbe) : ProbeAction → Option UrlProbe
  | .probe reply => match s.upgrade, s.pending with
      | none, connection :: rest =>
          some { s with pending := rest, upgrade := (newBase urls connection reply).map fun url => (connection, url) }
      | _, _ => none
  | .write fault now => match s.upgrade with
      | none => none
      | some (connection, url) =>
          let store := (ConnectionManager.update format fault connection.id (urlRequest url) now s.store).2
          some { s with
            store := store
            upgrade := none
            rewrites := s.rewrites ++ rewritten connection s.store store }
  | .edit fault change =>
      some { s with store := (ConfigStore.update format fault (ConfigUpdate.apply · change) s.store).2 }

end UrlProbe

namespace UrlRewrite

/-- The new URL is the https form of the one that was stored at the write, and no other field is changed. -/
structure Faithful (rewrite : UrlRewrite) : Prop where
  url : ∃ old new, urls.parse rewrite.before.baseUrl = some old ∧ urls.parse rewrite.after.baseUrl = some new ∧
    urls.HttpsForm old new
  fields : rewrite.after =
    { rewrite.before with url := rewrite.after.url, updatedAt := rewrite.after.updatedAt }

/-- The URL that is stored at the write has the host and port that were probed, and nothing besides. -/
def StillProbed (rewrite : UrlRewrite) : Prop :=
  ∃ old address, urls.parse rewrite.before.baseUrl = some old ∧ urls.parse rewrite.probed.probeUrl = some address ∧
    urls.IsWeb old ∧ urls.hostStr old = urls.hostStr address ∧ urls.port old = urls.port address ∧
    urls.OriginOnly old

end UrlRewrite

end

section

variable {ν : Type} {urls : UrlParts ν} {format : ConfigFormat} {connection : RemoteConnection} {url : Text}

theorem newBase_some {reply : ProbeReply} (upgrade : newBase urls connection reply = some url) :
    ∃ address target, urls.parse connection.probeUrl = some address ∧
      isSameHostHttpsUpgrade urls.toUrlLibrary address target = true ∧ url = urls.upgraded target := by
  unfold newBase at upgrade
  split at upgrade
  · split at upgrade
    · cases upgrade
    · split at upgrade
      · cases upgrade
      · rename_i address parsed
        split at upgrade
        · cases upgrade
        · rename_i target _
          split at upgrade
          · rename_i same
            cases upgrade
            exact ⟨address, target, parsed, same, rfl⟩
          · cases upgrade
  · cases upgrade

/-- The ports of an upgrade are the same, for the library leaves the port of a scheme out. -/
theorem upgrade_origin (laws : urls.Laws) {address target : ν}
    (same : isSameHostHttpsUpgrade urls.toUrlLibrary address target = true) :
    urls.scheme target = text "https" ∧ urls.hostStr target = urls.hostStr address ∧
      urls.port target = urls.port address := by
  unfold isSameHostHttpsUpgrade at same
  split at same
  · cases same
  · rename_i origin
    simp only [not_or, ne_eq, not_not] at origin
    obtain ⟨plain, secure, host⟩ := origin
    have left := laws.httpPort address plain
    have right := laws.httpsPort target secure
    refine ⟨secure, host, ?_⟩
    cases first : urls.port address <;> cases second : urls.port target <;> simp_all

theorem digit_plain {c : Char} (digit : c.isDigit = true) : c ≠ '/' ∧ isWhitespace c = false := by
  simp only [Char.isDigit, Bool.and_eq_true, decide_eq_true_eq, ge_iff_le] at digit
  have low : 48 ≤ c.toNat := digit.1
  have high : c.toNat ≤ 57 := digit.2
  constructor
  · intro slash
    subst slash
    simp at low
  · simp [isWhitespace]
    omega

theorem portText_plain (port : Option Nat) : ∀ c ∈ portText port, c ≠ '/' ∧ isWhitespace c = false := by
  cases port with
  | none =>
      intro c inside
      cases inside
  | some port =>
      intro c inside
      cases inside with
      | head => decide
      | tail _ inside => exact digit_plain (Nat.isDigit_of_mem_toDigits (by decide) (by decide) inside)

/-- An address without a slash or whitespace behind its scheme is normalized already. -/
theorem normalizeUrl_https {rest : Text} (nonempty : rest ≠ [])
    (plain : ∀ c ∈ rest, c ≠ '/' ∧ isWhitespace c = false) :
    normalizeUrl (text "https://" ++ rest) = text "https://" ++ rest := by
  have ended : ∀ p : Char → Bool, (∀ c ∈ rest, p c = false) →
      (text "https://" ++ rest).rdropWhile p = text "https://" ++ rest := by
    intro p stops
    apply List.rdropWhile_eq_self_iff.mpr
    intro _
    rw [List.getLast_append_of_ne_nil _ nonempty, stops _ (List.getLast_mem nonempty)]
    simp
  have trimmed : trim (text "https://" ++ rest) = text "https://" ++ rest :=
    ended isWhitespace fun c inside => (plain c inside).2
  have slashless : trimEndMatches '/' (text "https://" ++ rest) = text "https://" ++ rest := by
    apply ended
    intro c inside
    simp [(plain c inside).1]
  have schemed : contains (text "https://" ++ rest) (text "://") = true := by
    apply decide_eq_true
    exact ⟨text "https", rest, by rfl⟩
  unfold normalizeUrl
  simp only [trimmed, slashless, schemed]
  simp [text]

theorem normalizeUrl_upgraded (laws : urls.Laws) {target : ν} (secure : urls.scheme target = text "https") :
    normalizeUrl (urls.upgraded target) = urls.upgraded target := by
  obtain ⟨host, found, nonempty, plain⟩ := laws.host target (.inr secure)
  apply normalizeUrl_https
  · simp [found, nonempty]
  · intro c inside
    rw [found] at inside
    exact (List.mem_append.mp inside).elim (plain c) (portText_plain _ c)

theorem updated_urlRequest (before : RemoteConnection) (now : Int) :
    before.updated (urlRequest url) now = { before with url := normalizeUrl url, updatedAt := now } := rfl

/-- A rewritten URL is the https form of the stored one just when nothing but the scheme had to change. -/
theorem faithful_iff (laws : urls.Laws) {rewrite : UrlRewrite} {reply : ProbeReply} {now : Int}
    (upgrade : newBase urls rewrite.probed reply = some url)
    (written : rewrite.after = rewrite.before.updated (urlRequest url) now) :
    rewrite.Faithful urls ↔ rewrite.StillProbed urls := by
  obtain ⟨address, target, probed, same, rfl⟩ := newBase_some upgrade
  obtain ⟨secure, host, port⟩ := upgrade_origin laws same
  obtain ⟨origin, parsed, scheme, sameHost, samePort, bare⟩ := laws.origin target secure
  have stored : urls.parse rewrite.after.baseUrl = some origin := by
    rw [RemoteConnection.baseUrl, written, updated_urlRequest]
    show urls.parse (normalizeUrl (normalizeUrl (urls.upgraded target))) = some origin
    rw [normalizeUrl_upgraded laws secure, normalizeUrl_upgraded laws secure, parsed]
  constructor
  · intro faithful
    obtain ⟨old, new, before, after, form⟩ := faithful.url
    cases stored.symm.trans after
    refine ⟨old, address, before, probed, form.web, ?_, ?_, ?_⟩
    · rw [← form.host, sameHost, host]
    · rw [← form.port, samePort, port]
    · exact ⟨form.userInfo ▸ bare.userInfo, form.path ▸ bare.path, form.trailer ▸ bare.trailer⟩
  · intro ⟨old, again, before, known, web, oldHost, oldPort, plain⟩
    cases probed.symm.trans known
    constructor
    · refine ⟨old, origin, before, stored, web, scheme, ?_, ?_, ?_, ?_, ?_⟩
      · rw [sameHost, host, oldHost]
      · rw [samePort, port, oldPort]
      · rw [bare.userInfo, plain.userInfo]
      · rw [bare.path, plain.path]
      · rw [bare.trailer, plain.trailer]
    · rw [written, updated_urlRequest]

theorem connection?_updated (config : ClientConfig) (id : Text) (request : UpdateConnectionRequest) (now : Int) :
    ((ConfigUpdate.updateConnection id request now).apply config).connection? id =
      (config.connection? id).map (RemoteConnection.updated · request now) := by
  have found := find_replaceF (fun connection : RemoteConnection => decide (connection.id = id))
    (RemoteConnection.updated · request now) (fun connection => by rw [connection.updated_id]) config.connections
  simpa [ConfigUpdate.apply, ClientConfig.connection?] using found

/-- The memory has the new URL whatever becomes of the save. -/
theorem update_memory (fault : Option SaveFault) (id : Text) (request : UpdateConnectionRequest) (now : Int)
    (store : ConfigStore) : (ConnectionManager.update format fault id request now store).2.memory =
      (ConfigUpdate.updateConnection id request now).apply store.memory := by
  cases fault with
  | none => rfl
  | some fault => cases fault <;> rfl

namespace UrlProbe

variable {s next last : UrlProbe} {action : ProbeAction}

/-- What the probe is about to write was made of a reply, and so was everything that it has written. -/
structure Answered (urls : UrlParts ν) (s : UrlProbe) : Prop where
  upgrade : ∀ connection url, s.upgrade = some (connection, url) → ∃ reply, newBase urls connection reply = some url
  rewrites : ∀ rewrite ∈ s.rewrites, ∃ reply url now, newBase urls rewrite.probed reply = some url ∧
    rewrite.after = rewrite.before.updated (urlRequest url) now

theorem start_answered (store : ConfigStore) : (start store).Answered urls := by
  constructor
  · intro connection url waiting
    cases waiting
  · intro rewrite inside
    cases inside

theorem rewritten_updated {fault : Option SaveFault} {now : Int} {store : ConfigStore} {rewrite : UrlRewrite}
    (inside : rewrite ∈ rewritten connection store
      (ConnectionManager.update format fault connection.id (urlRequest url) now store).2) :
    rewrite.probed = connection ∧ rewrite.after = rewrite.before.updated (urlRequest url) now := by
  unfold rewritten at inside
  rw [update_memory, connection?_updated] at inside
  cases known : store.memory.connection? connection.id with
  | none => simp [known] at inside
  | some before =>
      simp only [known, Option.map_some, List.mem_singleton] at inside
      subst inside
      exact ⟨rfl, rfl⟩

theorem step_answered (answered : s.Answered urls) (taken : step urls format s action = some next) :
    next.Answered urls := by
  cases action with
  | probe reply =>
      simp only [step] at taken
      split at taken
      · cases taken
        constructor
        · intro connection url waiting
          simp only [Option.map_eq_some_iff, Prod.mk.injEq] at waiting
          obtain ⟨_, upgrade, rfl, rfl⟩ := waiting
          exact ⟨reply, upgrade⟩
        · exact answered.rewrites
      · cases taken
  | write fault now =>
      simp only [step] at taken
      split at taken
      · cases taken
      · rename_i connection url waiting
        cases taken
        obtain ⟨reply, upgrade⟩ := answered.upgrade connection url waiting
        constructor
        · intro connection url waiting
          cases waiting
        · intro rewrite inside
          cases List.mem_append.mp inside with
          | inl earlier => exact answered.rewrites rewrite earlier
          | inr new =>
              obtain ⟨rfl, after⟩ := rewritten_updated new
              exact ⟨reply, url, now, upgrade, after⟩
  | edit fault change =>
      cases taken
      exact ⟨answered.upgrade, answered.rewrites⟩

/-- However a run goes, a rewritten URL is the https form of the stored one just when that one still is the origin
that was probed. -/
theorem rewrites_faithful_iff (laws : urls.Laws) {store : ConfigStore} {actions : List ProbeAction}
    (run : Runs.Run (step urls format) (fun _ _ => True) (start store) actions last) :
    ∀ rewrite ∈ last.rewrites, rewrite.Faithful urls ↔ rewrite.StillProbed urls := by
  have answered : last.Answered urls :=
    run.invariant (fun _ _ _ answered _ taken => step_answered answered taken) (start_answered store)
  intro rewrite inside
  obtain ⟨reply, url, now, upgrade, written⟩ := answered.rewrites rewrite inside
  exact faithful_iff laws upgrade written

end UrlProbe

end

namespace PlainSample

def isHost (t : Text) : Bool := !t.isEmpty && t.all fun c => c.isLower || c.isDigit || c == '.' || c == '-'

/-- A web address with a host and a path. -/
structure PlainUrl where
  secure : Bool
  host : Text
  path : Text
  valid : isHost host = true

def afterScheme (secure : Bool) (rest : Text) : Option PlainUrl :=
  if valid : isHost (rest.takeWhile (· != '/')) = true then
    some ⟨secure, rest.takeWhile (· != '/'), '/' :: (rest.dropWhile (· != '/')).tail, valid⟩
  else none

def parse (t : Text) : Option PlainUrl :=
  if text "https://" <+: t then afterScheme true (t.drop 8)
  else if text "http://" <+: t then afterScheme false (t.drop 7)
  else none

def plainUrls : UrlParts PlainUrl where
  parse := parse
  join url location := if '/' ∈ location.head? then some { url with path := location } else parse location
  display url := (if url.secure then text "https://" else text "http://") ++ url.host ++ url.path
  scheme url := if url.secure then text "https" else text "http"
  hostStr url := some url.host
  port _ := none
  userInfo _ := []
  path url := url.path
  trailer _ := []

theorem isHost_char {host : Text} (valid : isHost host = true) : host ≠ [] ∧
    ∀ c ∈ host, c ≠ '/' ∧ isWhitespace c = false := by
  simp only [isHost, Bool.and_eq_true, Bool.not_eq_true', List.all_eq_true] at valid
  refine ⟨by simpa using valid.1, ?_⟩
  intro c inside
  have kind := valid.2 c inside
  simp only [Bool.or_eq_true, beq_iff_eq] at kind
  rcases kind with ((lower | digit) | rfl) | rfl
  · simp only [Char.isLower, Bool.and_eq_true, decide_eq_true_eq, ge_iff_le] at lower
    have low : 97 ≤ c.toNat := lower.1
    have high : c.toNat ≤ 122 := lower.2
    constructor
    · intro slash
      subst slash
      simp at low
    · simp [isWhitespace]
      omega
  · exact digit_plain digit
  · decide
  · decide

theorem plainUrls_laws : plainUrls.Laws := by
  constructor
  · intro url _
    exact ⟨url.host, rfl, isHost_char url.valid⟩
  · intro url _ default
    cases default
  · intro url _ default
    cases default
  · intro url secure
    have whole : url.host.takeWhile (· != '/') = url.host := by
      apply List.takeWhile_eq_self_iff.mpr
      intro c inside
      simpa using ((isHost_char url.valid).2 c inside).1
    have pathless : url.host.dropWhile (· != '/') = [] := by
      apply List.dropWhile_eq_nil_iff.mpr
      intro c inside
      simpa using ((isHost_char url.valid).2 c inside).1
    have bare : plainUrls.upgraded url = text "https://" ++ url.host := by
      show text "https://" ++ (url.host ++ []) = _
      rw [List.append_nil]
    have parsed : plainUrls.parse (plainUrls.upgraded url) = afterScheme true url.host := by
      rw [bare]
      show parse (text "https://" ++ url.host) = _
      rw [parse, if_pos (List.prefix_append _ _)]
      rfl
    have valid : isHost (url.host.takeWhile (· != '/')) = true := by
      rw [whole]
      exact url.valid
    refine ⟨⟨true, url.host.takeWhile (· != '/'), _, valid⟩, parsed.trans (dif_pos valid), rfl, ?_, rfl, rfl, ?_, rfl⟩
    · exact congrArg some whole
    · simp [plainUrls, pathless]

def vaultConnectionAt (url : String) : RemoteConnection := { vaultConnection with url := text url }

def redirected : ProbeAction := .probe (.answered 301 (some (text "https://vault/system/health")))

/-- Between the probe and the write the user moves the connection to another host. -/
def moved : ProbeAction := .edit none (.updateConnection (text "c1") (urlRequest (text "http://cellar")) 0)

def probed (url : String) (actions : List ProbeAction) : Option UrlProbe :=
  Runs.after (UrlProbe.step plainUrls vaultFormat) (.start ⟨⟨[vaultConnectionAt url], [], .initial⟩, none⟩) actions

def vaultRewrite (before : RemoteConnection) (probedUrl : String) (now : Int) : UrlRewrite where
  probed := vaultConnectionAt probedUrl
  before := before
  after := { before with url := text "https://vault", updatedAt := now }

/-- The connection has no more than a host, and nobody changes it. -/
theorem rewrites_faithful_vault : ∃ last, probed "http://vault" [redirected, .write none 2] = some last ∧
    last.rewrites = [vaultRewrite (vaultConnectionAt "http://vault") "http://vault" 2] ∧
    ∀ rewrite ∈ last.rewrites, rewrite.Faithful plainUrls ↔ rewrite.StillProbed plainUrls := by
  obtain ⟨last, ran, written⟩ : ∃ last, probed "http://vault" [redirected, .write none 2] = some last ∧
      last.rewrites = [vaultRewrite (vaultConnectionAt "http://vault") "http://vault" 2] := ⟨_, rfl, rfl⟩
  refine ⟨last, ran, written, ?_⟩
  exact UrlProbe.rewrites_faithful_iff plainUrls_laws (Runs.run_of_after ran)

/-- A path prefix is lost, and so is what the user has entered since the probe. -/
theorem rewrites_unfaithful :
    (∃ last, probed "http://vault/engine" [redirected, .write none 2] = some last ∧
      last.rewrites = [vaultRewrite (vaultConnectionAt "http://vault/engine") "http://vault/engine" 2]) ∧
    (∃ last, probed "http://vault" [redirected, moved, .write none 2] = some last ∧
      last.rewrites = [vaultRewrite (vaultConnectionAt "http://cellar") "http://vault" 2]) ∧
    ¬ (vaultRewrite (vaultConnectionAt "http://vault/engine") "http://vault/engine" 2).Faithful plainUrls ∧
    ¬ (vaultRewrite (vaultConnectionAt "http://cellar") "http://vault" 2).Faithful plainUrls := by
  refine ⟨⟨_, rfl, rfl⟩, ⟨_, rfl, rfl⟩, ?_, ?_⟩
  · intro faithful
    obtain ⟨old, new, before, after, form⟩ := faithful.url
    cases before
    cases after
    exact absurd form.path (by decide)
  · intro faithful
    obtain ⟨old, new, before, after, form⟩ := faithful.url
    cases before
    cases after
    exact absurd form.host (by decide)

end PlainSample

end AeordbSync

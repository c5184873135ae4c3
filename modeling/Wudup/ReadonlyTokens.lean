import Wudup.Library.Transition
import Wudup.LoginThrottling
import Wudup.Redaction

/-! The read-only token of machine integrations, rotated and revoked while requests are checked. -/
namespace Wudup
open Library

/-! The token of container config -/

def webTokenRecommendedMinLength : ℕ := 32

/-- The token of container config, empty where there is none, or why it is refused. -/
def configuredReadonlyToken (token authToken : Str) : Except Str Str :=
  if token = [] then .ok []
  else if token.length < webTokenRecommendedMinLength then
    .error ("WUD_WEB_READONLY_TOKEN must be at least 32 characters. Generate one with " ++
      "`openssl rand -hex 32`.").toList
  else if authToken ≠ [] ∧ token = authToken then
    .error ("WUD_WEB_READONLY_TOKEN must differ from WUD_WEB_TOKEN, which " ++
      "has full admin access. Generate a separate read-only token.").toList
  else .ok token

structure ReadonlySettings where
  readonlyToken : Str := []
  authToken : Str := []
  mutationsEnabled : Bool := true
  proxy : ProxySettings := ⟨[]⟩

/-! The token that the WebUI stores -/

/-- The stored settings, empty where there is no row. -/
abbrev SettingRows := Str → Str

def readonlyTokenHashKey : Str := "readonly_token.hash".toList
def readonlyTokenCreatedAtKey : Str := "readonly_token.created_at".toList
def readonlyTokenFingerprintKey : Str := "readonly_token.fingerprint".toList

structure StoredToken where
  hash : Str
  createdAt : Str
  fingerprint : Str
  deriving DecidableEq, Repr

def fingerprint (digest : Str) : Str := digest.take 8

def storedToken (rows : SettingRows) : Option StoredToken :=
  let digest := rows readonlyTokenHashKey
  let shown := rows readonlyTokenFingerprintKey
  if digest = [] then none
  else some
    { hash := digest
      createdAt := rows readonlyTokenCreatedAtKey
      fingerprint := if shown = [] then fingerprint digest else shown }

def SettingRows.storeToken (rows : SettingRows) (stored : StoredToken) : SettingRows :=
  Function.update (Function.update (Function.update rows readonlyTokenHashKey stored.hash)
    readonlyTokenCreatedAtKey stored.createdAt) readonlyTokenFingerprintKey stored.fingerprint

def SettingRows.dropToken (rows : SettingRows) : SettingRows :=
  Function.update (Function.update (Function.update rows readonlyTokenHashKey [])
    readonlyTokenCreatedAtKey []) readonlyTokenFingerprintKey []

def generatedToken (sha256 : Str → Str) (token createdAt : Str) : StoredToken :=
  { hash := sha256 token, createdAt, fingerprint := fingerprint (sha256 token) }

/-! What the WebUI shows -/

inductive TokenSource where
  | env
  | none
  | webui
  deriving DecidableEq, Repr

structure ReadonlyTokenStatus where
  source : TokenSource
  fingerprint : Str := []
  createdAt : Str := []
  editable : Bool
  revocable : Bool := false
  storedFingerprint : Str := []
  disabledReason : Str
  deriving DecidableEq, Repr

def envManagedReason : Str :=
  ("Set by WUD_WEB_READONLY_TOKEN or WUD_WEB_READONLY_TOKEN_FILE " ++
    "in container config. Change it there and restart WUDup.").toList

def dormantStoredReason : Str :=
  ("A token generated earlier in the WebUI is still stored and works again if " ++
    "you remove the container setting. Revoke it here.").toList

def dormantStoredCliReason : Str :=
  ("A token generated earlier in the WebUI is still stored and works again if " ++
    "you remove the container setting. Revoke it with `wudup web readonly-token revoke`.").toList

def mutationsDisabledReason : Str :=
  ("WebUI changes are turned off. Set WUD_WEB_MUTATIONS_ENABLED=true to generate a token here, or set " ++
    "WUD_WEB_READONLY_TOKEN_FILE in container config.").toList

section
variable (settings : ReadonlySettings)

/-- Why a token of container config cannot be changed, and what is stored beside it. -/
def envDisabledReason (stored : Option StoredToken) : Str :=
  let dormant := if settings.mutationsEnabled then dormantStoredReason else dormantStoredCliReason
  if stored.isSome then envManagedReason ++ ' ' :: dormant else envManagedReason

def disabledReason : Str := if settings.mutationsEnabled then [] else mutationsDisabledReason

variable (sha256 : Str → Str)

def statusFromStored (stored : Option StoredToken) : ReadonlyTokenStatus :=
  if settings.readonlyToken ≠ [] then
    { source := .env
      fingerprint := fingerprint (sha256 settings.readonlyToken)
      editable := false
      revocable := settings.mutationsEnabled && stored.isSome
      storedFingerprint := (stored.map (·.fingerprint)).getD []
      disabledReason := envDisabledReason settings stored }
  else
    match stored with
    | none => { source := .none, editable := settings.mutationsEnabled, disabledReason := disabledReason settings }
    | some stored =>
      { source := .webui
        fingerprint := stored.fingerprint
        createdAt := stored.createdAt
        editable := settings.mutationsEnabled
        revocable := settings.mutationsEnabled
        disabledReason := disabledReason settings }

/-- The digest that requests are compared with, empty where there is no token; `none` where the database cannot be
read. -/
def activeTokenHash (rows : Option SettingRows) : Option Str :=
  if settings.readonlyToken ≠ [] then some (sha256 settings.readonlyToken)
  else rows.map (· readonlyTokenHashKey)

end

/-! Requests -/

def readMethods : List Str := ["GET".toList,"HEAD".toList]

def bearerToken (authorization : Option Str) : Option Str :=
  match cut ' ' (authorization.getD []) with
  | none => none
  | some (scheme,token) => if lower scheme = "bearer".toList ∧ token ≠ [] then some token else none

/-- The token that a request presents, or the status that it is refused with. -/
def presentedToken (method : Str) (setupRequired : Bool) (authorization : Option Str) : Except ℕ Str :=
  if method.map Char.toUpper ∉ readMethods then .error 405
  else if setupRequired then .error 403
  else (bearerToken authorization).elim (.error 401) .ok

def lockedOut (rows : List (ThrottleRow Str)) (clientAddress : Str) (now : ℤ) : Bool :=
  (Keyed.find ThrottleRow.key clientAddress rows).any (·.lockedUntil > now)

/-! The token while requests are checked; every operation under a lock, and every transaction, is a step. -/

inductive TokenStage where
  | opening
  | reading
  | comparing (expected : Str)
  | done
  deriving DecidableEq, Repr

structure TokenCall where
  clientAddress : Str
  token : Str
  stage : TokenStage
  deriving DecidableEq, Repr

structure TokenAudit where
  /-- Whether the command line made the change. -/
  cli : Bool
  operation : Str
  before : Str
  after : Str
  deriving DecidableEq, Repr

inductive TokenEvent where
  | started (settings : ReadonlySettings)
  | issued (token : Str)
  | revoked
  | began (call : ℕ) (clientAddress token : Str)
  | looked (call : ℕ) (now : ℕ)
  | read (call : ℕ) (expected : Str)
  | accepted (call : ℕ) (clientAddress token : Str)
  | guessed (call : ℕ) (clientAddress : Str) (now : ℕ)

structure TokenState where
  settings : ReadonlySettings
  rows : SettingRows := fun _ => []
  audits : List TokenAudit := []
  throttle : List (ThrottleRow Str) := []
  calls : ℕ → Option TokenCall := fun _ => none
  history : List TokenEvent := []

inductive TokenAction where
  | restart (token authToken : Str) (mutationsEnabled : Bool) (proxy : ProxySettings)
  | rotate (secret createdAt : Str)
  | revoke (cli : Bool)
  | begin (call : ℕ) (request : Request) (method : Str) (setupRequired : Bool) (authorization : Option Str)
  /-- The next operation of a call, with the reading of the clock that it goes by. -/
  | advance (call : ℕ) (now : ℕ) (readable : Bool)

namespace TokenState
variable (sha256 : Str → Str) (rules : LoginRules) (s : TokenState)

def start (settings : ReadonlySettings) : TokenState where
  settings := settings
  history := [.started settings]

def log (event : TokenEvent) : TokenState := { s with history := s.history ++ [event] }

def setStage (i : ℕ) (call : TokenCall) (stage : TokenStage) : TokenState :=
  { s with calls := Function.update s.calls i (some { call with stage }) }

def storedFingerprint : Str := ((storedToken s.rows).map (·.fingerprint)).getD []

/-- A new token replaces the stored one. -/
def rotateStoredToken (secret createdAt : Str) : TokenState :=
  let token := generatedReadonlyTokenPrefix ++ secret
  let stored := generatedToken sha256 token createdAt
  let audit : TokenAudit :=
    { cli := false, operation := "rotate_readonly_token".toList, before := s.storedFingerprint,
      after := stored.fingerprint }
  let rotated : TokenState := { s with rows := s.rows.storeToken stored, audits := s.audits ++ [audit] }
  rotated.log (.issued token)

def revokeStoredToken (cli : Bool) : Option TokenState :=
  match storedToken s.rows with
  | none => none
  | some stored =>
    let audit : TokenAudit :=
      { cli, operation := "revoke_readonly_token".toList, before := stored.fingerprint, after := [] }
    let dropped : TokenState := { s with rows := s.rows.dropToken, audits := s.audits ++ [audit] }
    some (dropped.log .revoked)

def advance (i : ℕ) (call : TokenCall) (now : ℕ) (readable : Bool) : Option TokenState :=
  match call.stage with
  | .opening =>
    let throttle := rules.pruneRows s.throttle now
    let stage := if lockedOut throttle call.clientAddress now then .done else .reading
    some (({ s with throttle }.setStage i call stage).log (.looked i now))
  | .reading =>
    match activeTokenHash s.settings sha256 (if readable then some s.rows else none) with
    | none => some (s.setStage i call .done)
    | some expected => some ((s.setStage i call (.comparing expected)).log (.read i expected))
  | .comparing expected =>
    if lockedOut s.throttle call.clientAddress now then some (s.setStage i call .done)
    else if expected ≠ [] ∧ sha256 call.token = expected then
      some ((s.setStage i call .done).log (.accepted i call.clientAddress call.token))
    else
      let throttle := rules.recordLoginClientFailure s.throttle call.clientAddress now
      some (({ s with throttle }.setStage i call .done).log (.guessed i call.clientAddress now))
  | .done => none

/-- A process that starts again forgets its calls and the failures it counted. -/
def restart (settings : ReadonlySettings) : TokenState :=
  let calls := fun i => (s.calls i).map fun call => { call with stage := .done }
  let restarted : TokenState := { s with settings, throttle := [], calls }
  restarted.log (.started settings)

def begin (i : ℕ) (clientAddress token : Str) : TokenState :=
  let call : TokenCall := { clientAddress, token, stage := .opening }
  let begun : TokenState := { s with calls := Function.update s.calls i (some call) }
  begun.log (.began i clientAddress token)

def step : System TokenState TokenAction
  | s, .restart token authToken mutationsEnabled proxy =>
    match configuredReadonlyToken token authToken with
    | .error _ => none
    | .ok readonlyToken => some (s.restart { readonlyToken, authToken, mutationsEnabled, proxy })
  | s, .rotate secret createdAt =>
    if s.settings.readonlyToken = [] ∧ s.settings.mutationsEnabled then
      some (s.rotateStoredToken sha256 secret createdAt)
    else none
  | s, .revoke cli => if cli ∨ s.settings.mutationsEnabled then s.revokeStoredToken cli else none
  | s, .begin i request method setupRequired authorization =>
    match s.calls i,presentedToken method setupRequired authorization with
    | none,.ok token => some (s.begin i (requestClientAddress request s.settings.proxy) token)
    | _,_ => none
  | s, .advance i now readable => (s.calls i).bind fun call => s.advance sha256 rules i call now readable

end TokenState
end Wudup

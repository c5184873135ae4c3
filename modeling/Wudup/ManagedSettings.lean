import Wudup.Library.Transition
import Wudup.Matching
import Wudup.RegistryOrigins

/-! The settings that are managed in the WebUI: how updates are checked and stored, and what is in effect. -/
namespace Wudup
open Library

inductive SettingsFailure where
  /-- An HTTP error with its status and detail. -/
  | http (status : ℕ) (detail : Str)
  /-- A value that the configuration refuses. -/
  | configError (message : Str)
  /-- A URL that cannot be split. -/
  | valueError
  deriving DecidableEq, Repr

def settingRefused {α : Type} (name : Str) (why : String) : Except SettingsFailure α :=
  .error (.configError (name ++ why.toList))

/-! Values -/

def parseBoolEnv (name : Str) (value : Option Str) (default : Bool) : Except SettingsFailure Bool :=
  if value.getD [] = [] then .ok default
  else
    -- no other character has a lower case that is a letter of these words
    let normalized := (strip (value.getD [])).map Char.toLower
    if normalized ∈ ["1".toList,"true".toList,"yes".toList,"on".toList] then .ok true
    else if normalized ∈ ["0".toList,"false".toList,"no".toList,"off".toList] then .ok false
    else settingRefused name " must be true or false"

/-- A relative path by its parts. -/
abbrev RelativePath := List Str

def composeIgnoreItem (name rawItem : Str) : Except SettingsFailure RelativePath :=
  let item := strip rawItem
  if item = [] then settingRefused name " must be a comma-separated list of non-empty relative paths"
  else if item.head? = some '/' then settingRefused name " entries must be relative paths"
  else if (item.splitOn '/').any (· ∈ [[],['.'],['.','.']]) then
    settingRefused name " entries cannot contain empty, '.', or '..' path components"
  else .ok (item.splitOn '/')

def parseComposeIgnorePaths (name : Str) : Option Str → Except SettingsFailure (List RelativePath)
  | none => .ok []
  | some [] => .ok []
  | some value => ((value.splitOn ',').mapM (composeIgnoreItem name)).map orderedUnique

def asPosix (path : RelativePath) : Str := List.intercalate ['/'] path

def formatComposeIgnorePaths (paths : List RelativePath) : Str := List.intercalate [',',' '] (paths.map asPosix)

/-- The number that digits write with single underscores between them. -/
def unsignedLiteral (literal : Str) : Option ℕ :=
  if (literal.splitOn '_').any (· = []) then none else readDecimal (literal.splitOn '_').flatten

/-- The integer that a text writes, with a sign or without. -/
def intLiteral (text : Str) : Option ℤ :=
  match strip text with
  | '-' :: literal => (unsignedLiteral literal).map fun n : ℕ => -(n : ℤ)
  | '+' :: literal => (unsignedLiteral literal).map fun n : ℕ => (n : ℤ)
  | literal => (unsignedLiteral literal).map fun n : ℕ => (n : ℤ)

def parsePositiveIntSetting (name value : Str) (default : ℕ) : Except SettingsFailure ℕ :=
  let rawValue := strip value
  if rawValue = [] then .ok default
  else
    match intLiteral rawValue with
    | none => settingRefused name " must be a positive integer"
    | some parsed => if parsed ≤ 0 then settingRefused name " must be a positive integer" else .ok parsed.toNat

def discordWebhookAllowedHosts : List Str :=
  ["discord.com".toList,"discordapp.com".toList,"canary.discord.com".toList,"ptb.discord.com".toList]

def discordWebhookPathPrefix : Str := "/api/webhooks/".toList

/-- The user name and the password before the host of a URL. -/
def userInfo (netloc : Str) : Str × Str :=
  ((cutLast '@' netloc).map fun info => splitAtChar ':' info.1).getD ([],[])

def webhookSegments (path : Str) : List Str :=
  if discordWebhookPathPrefix.isPrefixOf path then (path.drop discordWebhookPathPrefix.length).splitOn '/' else []

def webhookPort (port : Str) : Bool := port = [] || (port.all Char.isDigit && readDecimal port = some 443)

def discordWebhookName : Str := "release_notifications_discord_webhook".toList

def validatedDiscordWebhook (rules : RedactionRules) (value : Str) : Except SettingsFailure Str :=
  let candidate := strip value
  match urlsplit rules candidate with
  | none => .error .valueError
  | some parsed =>
    let segments := webhookSegments parsed.path
    if parsed.scheme ≠ "https".toList ∨ (userInfo parsed.netloc).1 ≠ [] ∨ (userInfo parsed.netloc).2 ≠ [] ∨
        webhookPort (hostInfo parsed.netloc).2 = false ∨
        (hostInfo parsed.netloc).1.map Char.toLower ∉ discordWebhookAllowedHosts ∨
        segments.length ≠ 2 ∨ [] ∈ segments then
      settingRefused discordWebhookName " must be a Discord webhook URL"
    else .ok candidate

/-! Keys -/

inductive ManagedKey where
  | themePreference
  | onboardingChecklist
  | sidebarBadges
  | composeIgnorePaths
  | digestPinUpdates
  | retagDigestPins
  | releaseNotesEnabled
  | deliveryMode
  | mode
  | resendPolicy
  | cooldownSeconds
  | discordWebhook
  | verbosity
  deriving DecidableEq, Repr

namespace ManagedKey

/-- In the order in which the settings are listed. -/
def all : List ManagedKey :=
  [.themePreference,.onboardingChecklist,.sidebarBadges,.composeIgnorePaths,.digestPinUpdates,.retagDigestPins,
    .releaseNotesEnabled,.deliveryMode,.mode,.resendPolicy,.cooldownSeconds,.discordWebhook,.verbosity]

def name : ManagedKey → Str
  | themePreference => "theme_preference".toList
  | onboardingChecklist => "onboarding_checklist".toList
  | sidebarBadges => "sidebar_badges".toList
  | composeIgnorePaths => "compose_ignore_paths".toList
  | digestPinUpdates => "digest_pin_updates".toList
  | retagDigestPins => "retag_digest_pins".toList
  | releaseNotesEnabled => "release_notes_enabled".toList
  | deliveryMode => "release_notifications_delivery_mode".toList
  | mode => "release_notifications_mode".toList
  | resendPolicy => "release_notifications_resend_policy".toList
  | cooldownSeconds => "release_notifications_cooldown_seconds".toList
  | discordWebhook => discordWebhookName
  | verbosity => "release_notifications_verbosity".toList

/-- The key of the row that stores the setting. -/
def dbKey : ManagedKey → Str
  | themePreference => "ui.theme_preference".toList
  | onboardingChecklist => "onboarding_checklist_dismissed_at".toList
  | sidebarBadges => "ui.sidebar_badges".toList
  | composeIgnorePaths => "compose.ignore_paths".toList
  | digestPinUpdates => "compose.digest_pin_updates".toList
  | retagDigestPins => "retag.digest_pins".toList
  | releaseNotesEnabled => "release_notes.enabled".toList
  | deliveryMode => "release_notifications.delivery_mode".toList
  | mode => "release_notifications.mode".toList
  | resendPolicy => "release_notifications.resend_policy".toList
  | cooldownSeconds => "release_notifications.cooldown_seconds".toList
  | discordWebhook => "release_notifications.discord_webhook".toList
  | verbosity => "release_notifications.verbosity".toList

/-- The values of a setting that is a choice. -/
def allowedValues : ManagedKey → List Str
  | themePreference => ["system".toList,"light".toList,"dark".toList]
  | onboardingChecklist => ["visible".toList,"dismissed".toList]
  | sidebarBadges | digestPinUpdates | retagDigestPins | releaseNotesEnabled => ["false".toList,"true".toList]
  | deliveryMode => ["on_demand".toList,"on_detection".toList]
  | mode => ["digest".toList,"per_container".toList]
  | resendPolicy => ["remote_change".toList,"cooldown".toList]
  | verbosity => ["summary".toList,"full".toList]
  | composeIgnorePaths | cooldownSeconds | discordWebhook => []

end ManagedKey

def defaultCooldownSeconds : ℕ := 86400

/-! Settings of the server -/

structure ServerSettings where
  commandEnv : List (Str × Str) := []
  composeIgnorePaths : List RelativePath := []
  digestPinUpdates : Bool := false
  releaseNotesEnabledEnv : Option Bool := none
  mutationsEnabled : Bool := true

def composeIgnorePathsEnv : Str := "WUD_COMPOSE_IGNORE_PATHS".toList
def digestPinUpdatesEnv : Str := "WUD_DIGEST_PIN_UPDATES".toList
def releaseNotesEnabledEnvName : Str := "WUD_RELEASE_NOTES_ENABLED".toList
def discordWebhookEnvName : Str := "DISCORD_WEBHOOK".toList

/-- The settings that a server starts with; values that are refused keep it from starting. -/
def loadServerSettings (env : List (Str × Str)) (mutationsEnabled : Bool) : Except SettingsFailure ServerSettings := do
  let composeIgnorePaths ← parseComposeIgnorePaths composeIgnorePathsEnv (env.lookup composeIgnorePathsEnv)
  let digestPinUpdates ← parseBoolEnv digestPinUpdatesEnv (env.lookup digestPinUpdatesEnv) false
  let enabled ← parseBoolEnv releaseNotesEnabledEnvName (env.lookup releaseNotesEnabledEnvName) false
  pure
    { commandEnv := env
      composeIgnorePaths
      digestPinUpdates
      releaseNotesEnabledEnv := (env.lookup releaseNotesEnabledEnvName).map fun _ => enabled
      mutationsEnabled }

namespace ServerSettings
variable (settings : ServerSettings)

def envConfigured (name : Str) : Bool := (settings.commandEnv.lookup name).isSome

/-- The webhook of the environment, and the variable it comes from. -/
def discordWebhookEnv : Str × Str :=
  let value := strip ((settings.commandEnv.lookup discordWebhookEnvName).getD [])
  if value ≠ [] then (value,discordWebhookEnvName) else ([],[])

/-- Why a setting is not managed in the WebUI, empty where it is. -/
def disabledReason (configured : Bool) (source : Str) (what : String) : Str :=
  if configured then
    source ++ " is configured in the server environment. Unset it to manage ".toList ++ what.toList ++
      " in the WebUI.".toList
  else []

def composeIgnorePathsDisabledReason : Str :=
  disabledReason (settings.envConfigured composeIgnorePathsEnv) composeIgnorePathsEnv "compose ignore paths"

def digestPinDisabledReason : Str :=
  disabledReason (settings.envConfigured digestPinUpdatesEnv) digestPinUpdatesEnv "digest-pin updates"

def releaseNotesEnabledDisabledReason : Str :=
  disabledReason (settings.envConfigured releaseNotesEnabledEnvName) releaseNotesEnabledEnvName
    "release-note notifications"

def discordWebhookDisabledReason : Str :=
  disabledReason (settings.discordWebhookEnv.2 ≠ []) settings.discordWebhookEnv.2 "the Discord webhook"

/-- The reason of each setting that the environment can configure. -/
def reasonFor : ManagedKey → Str
  | .composeIgnorePaths => settings.composeIgnorePathsDisabledReason
  | .digestPinUpdates => settings.digestPinDisabledReason
  | .releaseNotesEnabled => settings.releaseNotesEnabledDisabledReason
  | .discordWebhook => settings.discordWebhookDisabledReason
  | _ => []

end ServerSettings

/-! Updates -/

def configErrorTo422 {α : Type} : Except SettingsFailure α → Except SettingsFailure α
  | .error (.configError message) => .error (.http 422 message)
  | result => result

section
variable (rules : RedactionRules) (settings : ServerSettings)

def validatedComposeIgnorePathsUpdate (rawValue : Str) : Except SettingsFailure Str :=
  if settings.envConfigured composeIgnorePathsEnv then .error (.http 422 settings.composeIgnorePathsDisabledReason)
  else
    configErrorTo422
      ((parseComposeIgnorePaths ManagedKey.composeIgnorePaths.name (some (strip rawValue))).map
        formatComposeIgnorePaths)

def validatedCooldownSecondsUpdate (rawValue : Str) : Except SettingsFailure Str :=
  configErrorTo422
    ((parsePositiveIntSetting ManagedKey.cooldownSeconds.name rawValue defaultCooldownSeconds).map (Nat.toDigits 10))

def validatedDiscordWebhookUpdate (rawValue : Str) : Except SettingsFailure Str :=
  if settings.discordWebhookDisabledReason ≠ [] then .error (.http 422 settings.discordWebhookDisabledReason)
  else if strip rawValue = [] then .ok []
  else configErrorTo422 (validatedDiscordWebhook rules (strip rawValue))

def validatedChoiceSettingUpdate (key : ManagedKey) (rawValue : Str) : Except SettingsFailure Str :=
  if strip rawValue ∈ key.allowedValues then .ok (strip rawValue)
  else .error (.http 422 (key.name ++ " must be one of: ".toList ++ List.intercalate [',',' '] key.allowedValues))

/-- Nothing, unless the environment configures the setting. -/
def raiseIfSettingLockedByEnv (key : ManagedKey) : Except SettingsFailure Unit :=
  if key = .digestPinUpdates ∧ settings.envConfigured digestPinUpdatesEnv then
    .error (.http 422 settings.digestPinDisabledReason)
  else if key = .releaseNotesEnabled ∧ settings.envConfigured releaseNotesEnabledEnvName then
    .error (.http 422 settings.releaseNotesEnabledDisabledReason)
  else .ok ()

def validatedManagedSettingUpdate (key : ManagedKey) (rawValue : Str) : Except SettingsFailure Str :=
  match key with
  | .composeIgnorePaths => validatedComposeIgnorePathsUpdate settings rawValue
  | key => do
    raiseIfSettingLockedByEnv settings key
    match key with
    | .cooldownSeconds => validatedCooldownSecondsUpdate rawValue
    | .discordWebhook => validatedDiscordWebhookUpdate rules settings rawValue
    | key => validatedChoiceSettingUpdate key rawValue

/-- The texts of a request; no key is given twice. -/
structure ManagedSettingsUpdateRequest where
  values : List (Str × Str)
  distinct : (values.map (·.1)).Nodup

/-- The setting of a key, with its raw value and the value to store. -/
structure ManagedSettingUpdate where
  key : ManagedKey
  rawValue : Str
  value : Str
  deriving DecidableEq, Repr

def validatedEntry (entry : Str × Str) : Except SettingsFailure ManagedSettingUpdate :=
  match ManagedKey.all.find? (·.name = entry.1) with
  | none => .error (.http 422 ("managed setting is not editable: ".toList ++ entry.1))
  | some key => (validatedManagedSettingUpdate rules settings key entry.2).map fun value => ⟨key,entry.2,value⟩

def validatedManagedSettingUpdates (payload : ManagedSettingsUpdateRequest) :
    Except SettingsFailure (List ManagedSettingUpdate) :=
  if payload.values = [] then .error (.http 422 "at least one managed setting is required".toList)
  else payload.values.mapM (validatedEntry rules settings)

end

/-- The rows of the settings, by their keys. -/
abbrev StoredSettings := Str → Option Str

/-- What a row holds, empty where there is none. -/
def StoredSettings.webSetting (rows : StoredSettings) (key : ManagedKey) : Str := (rows key.dbKey).getD []

/-- The time of a change, written out. -/
abbrev Timestamp := { text : Str // text ≠ [] }

def applyOnboardingChecklistUpdate (current : Str) (now : Timestamp) (rows : StoredSettings) (value : Str) :
    StoredSettings :=
  if value = "dismissed".toList then
    Function.update rows ManagedKey.onboardingChecklist.dbKey (some (if current = [] then now.1 else current))
  else Function.update rows ManagedKey.onboardingChecklist.dbKey none

def applyDiscordWebhookUpdate (rows : StoredSettings) (value : Str) : StoredSettings :=
  Function.update rows ManagedKey.discordWebhook.dbKey (if value = [] then none else some value)

/-- `current` is what the row of the checklist held when it was read. -/
def applyManagedSettingUpdate (current : Str) (now : Timestamp) (rows : StoredSettings)
    (update : ManagedSettingUpdate) : StoredSettings :=
  match update.key with
  | .onboardingChecklist => applyOnboardingChecklistUpdate current now rows update.value
  | .discordWebhook => applyDiscordWebhookUpdate rows update.value
  | key => Function.update rows key.dbKey (some update.value)

def applyManagedSettingUpdates (current : Str) (now : Timestamp) (rows : StoredSettings)
    (updates : List ManagedSettingUpdate) : StoredSettings :=
  updates.foldl (applyManagedSettingUpdate current now) rows

/-! What is in effect; a database that is missing has no rows -/

section
variable (rules : RedactionRules) (settings : ServerSettings) (rows : StoredSettings)

def effectiveComposeIgnorePaths : Except SettingsFailure (List RelativePath) :=
  if settings.envConfigured composeIgnorePathsEnv then .ok settings.composeIgnorePaths
  else parseComposeIgnorePaths ManagedKey.composeIgnorePaths.name (rows ManagedKey.composeIgnorePaths.dbKey)

def effectiveDigestPinUpdates : Except SettingsFailure Bool :=
  if settings.envConfigured digestPinUpdatesEnv then .ok settings.digestPinUpdates
  else parseBoolEnv ManagedKey.digestPinUpdates.name (some (rows.webSetting .digestPinUpdates)) false

def effectiveRetagDigestPins : Except SettingsFailure Bool :=
  parseBoolEnv ManagedKey.retagDigestPins.name (some (rows.webSetting .retagDigestPins)) false

/-- Whether release notes are enabled, and whether that was configured. -/
def effectiveReleaseNotesEnabledState : Except SettingsFailure (Bool × Bool) :=
  if settings.envConfigured releaseNotesEnabledEnvName then .ok (settings.releaseNotesEnabledEnv.getD false,true)
  else
    (parseBoolEnv ManagedKey.releaseNotesEnabled.name (some (rows.webSetting .releaseNotesEnabled)) false).map
      fun enabled => (enabled,(rows ManagedKey.releaseNotesEnabled.dbKey).isSome)

def managedChoiceSettingValue (key : ManagedKey) (default : Str) : Except SettingsFailure Str :=
  let value := (rows key.dbKey).getD default
  if value ∈ key.allowedValues then .ok value
  else .error (.configError (key.name ++ " must be one of: ".toList ++ List.intercalate [',',' '] key.allowedValues))

structure NotificationSettings where
  deliveryMode : Str
  mode : Str
  resendPolicy : Str
  cooldownSeconds : ℕ
  verbosity : Str
  deriving DecidableEq, Repr

def releaseNotificationConfigFromValues : Except SettingsFailure NotificationSettings := do
  let deliveryMode ← managedChoiceSettingValue rows .deliveryMode "on_detection".toList
  let mode ← managedChoiceSettingValue rows .mode "digest".toList
  let resendPolicy ← managedChoiceSettingValue rows .resendPolicy "remote_change".toList
  let cooldownSeconds ← parsePositiveIntSetting ManagedKey.cooldownSeconds.name (rows.webSetting .cooldownSeconds)
    defaultCooldownSeconds
  let verbosity ← managedChoiceSettingValue rows .verbosity "summary".toList
  pure { deliveryMode, mode, resendPolicy, cooldownSeconds, verbosity }

/-- The webhook to send to, and where it comes from. -/
def effectiveReleaseNotificationWebhook : Except SettingsFailure (Str × Str) :=
  if settings.discordWebhookEnv.1 ≠ [] then .ok settings.discordWebhookEnv
  else if rows.webSetting .discordWebhook = [] then .ok ([],[])
  else
    (validatedDiscordWebhook rules (rows.webSetting .discordWebhook)).map fun value =>
      (value,"WebUI settings".toList)

end

/-! What the settings page shows -/

structure ManagedSettingEntry where
  key : Str
  value : Str
  defaultValue : Str
  /-- Whether the value is configured, and not the default. -/
  configuredSource : Bool
  editable : Bool
  allowedValues : List Str
  restartRequired : Bool := false
  disabledReason : Str := []
  configured : Bool := false
  sensitive : Bool := false
  deriving DecidableEq, Repr

def formatBool (value : Bool) : Str := if value then "true".toList else "false".toList

section
variable (rules : RedactionRules) (settings : ServerSettings) (values : StoredSettings)

/-- The entry of a setting that has its value, its default and where the value comes from. -/
def managedEntry (key : ManagedKey) (value defaultValue : Str) (configuredSource : Bool) : ManagedSettingEntry where
  key := key.name
  value := value
  defaultValue := defaultValue
  configuredSource := configuredSource
  editable := settings.reasonFor key = []
  allowedValues := key.allowedValues
  disabledReason := settings.reasonFor key

def themePreferenceEntry : ManagedSettingEntry :=
  let themeValue := values.webSetting .themePreference
  let themeConfigured := themeValue ∈ ManagedKey.themePreference.allowedValues
  managedEntry settings .themePreference (if themeConfigured then themeValue else "system".toList) "system".toList
    themeConfigured

def onboardingChecklistEntry : ManagedSettingEntry :=
  let dismissed := values.webSetting .onboardingChecklist ≠ []
  managedEntry settings .onboardingChecklist (if dismissed then "dismissed".toList else "visible".toList)
    "visible".toList dismissed

/-- The entry of a switch, from its stored value. -/
def switchEntry (key : ManagedKey) (default : Bool) : Except SettingsFailure ManagedSettingEntry :=
  (parseBoolEnv key.name (some (values.webSetting key)) default).map fun enabled =>
    managedEntry settings key (formatBool enabled) (formatBool default) (values key.dbKey).isSome

def sidebarBadgesEntry : Except SettingsFailure ManagedSettingEntry := switchEntry settings values .sidebarBadges true

def composeIgnorePathsEntry : Except SettingsFailure ManagedSettingEntry :=
  (effectiveComposeIgnorePaths settings values).map fun paths =>
    managedEntry settings .composeIgnorePaths (formatComposeIgnorePaths paths) (formatComposeIgnorePaths [])
      (settings.envConfigured composeIgnorePathsEnv || (values ManagedKey.composeIgnorePaths.dbKey).isSome)

def digestPinUpdatesEntry : Except SettingsFailure ManagedSettingEntry :=
  if settings.envConfigured digestPinUpdatesEnv then
    .ok (managedEntry settings .digestPinUpdates (formatBool settings.digestPinUpdates) (formatBool false) true)
  else switchEntry settings values .digestPinUpdates false

def retagDigestPinsEntry : Except SettingsFailure ManagedSettingEntry :=
  switchEntry settings values .retagDigestPins false

def releaseNotesEnabledEntry : Except SettingsFailure ManagedSettingEntry :=
  if settings.envConfigured releaseNotesEnabledEnvName then
    .ok (managedEntry settings .releaseNotesEnabled (formatBool (settings.releaseNotesEnabledEnv.getD false))
      (formatBool false) true)
  else switchEntry settings values .releaseNotesEnabled false

/-- The webhook itself is never shown. -/
def discordWebhookEntry : Except SettingsFailure ManagedSettingEntry := do
  let envWebhook := settings.discordWebhookEnv.1
  let storedWebhook := values.webSetting .discordWebhook
  let webhookConfigured := envWebhook ≠ [] || storedWebhook ≠ []
  if storedWebhook ≠ [] ∧ envWebhook = [] then
    let _ ← validatedDiscordWebhook rules storedWebhook
  pure
    { managedEntry settings .discordWebhook [] [] webhookConfigured with
      configured := webhookConfigured, sensitive := true }

def releaseNotificationEntries : Except SettingsFailure (List ManagedSettingEntry) := do
  let config ← releaseNotificationConfigFromValues values
  let webhook ← discordWebhookEntry rules settings values
  let stored (key : ManagedKey) := (values key.dbKey).isSome
  pure
    [managedEntry settings .deliveryMode config.deliveryMode "on_detection".toList (stored .deliveryMode),
      managedEntry settings .mode config.mode "digest".toList (stored .mode),
      managedEntry settings .resendPolicy config.resendPolicy "remote_change".toList (stored .resendPolicy),
      managedEntry settings .cooldownSeconds (Nat.toDigits 10 config.cooldownSeconds)
        (Nat.toDigits 10 defaultCooldownSeconds) (stored .cooldownSeconds),
      webhook,
      managedEntry settings .verbosity config.verbosity "summary".toList (stored .verbosity)]

def managedSettingsEntriesFromValues : Except SettingsFailure (List ManagedSettingEntry) := do
  let sidebarBadges ← sidebarBadgesEntry settings values
  let composeIgnorePaths ← composeIgnorePathsEntry settings values
  let digestPinUpdates ← digestPinUpdatesEntry settings values
  let retagDigestPins ← retagDigestPinsEntry settings values
  let releaseNotesEnabled ← releaseNotesEnabledEntry settings values
  let releaseNotifications ← releaseNotificationEntries rules settings values
  pure
    (themePreferenceEntry settings values :: onboardingChecklistEntry settings values :: sidebarBadges ::
      composeIgnorePaths :: digestPinUpdates :: retagDigestPins :: releaseNotesEnabled :: releaseNotifications)

def managedSettingsAuditValues (entries : List ManagedSettingEntry) : List (Str × Str) :=
  entries.map fun entry =>
    (entry.key,if entry.sensitive && entry.configured then "configured".toList else entry.value)

end

/-! The server -/

structure SettingsAudit where
  keys : List Str
  before : List (Str × Str)
  after : List (Str × Str)
  deriving DecidableEq, Repr

/-- A request whose updates are checked, with the entries read before its transaction. -/
structure SettingsRequest where
  updates : List ManagedSettingUpdate
  before : List ManagedSettingEntry

/-- The keys and raw values that a request changes. -/
def SettingsRequest.changes (request : SettingsRequest) : List (ManagedKey × Str) :=
  request.updates.map fun update => (update.key,update.rawValue)

structure SettingsServer where
  settings : ServerSettings
  rows : StoredSettings := fun _ => none
  requests : List SettingsRequest := []
  responses : List (Except SettingsFailure (List ManagedSettingEntry)) := []
  audits : List SettingsAudit := []
  /-- The keys and raw values of the changes made so far. -/
  history : List (ManagedKey × Str) := []

inductive SettingsAction where
  | submit (payload : ManagedSettingsUpdateRequest)
  | commit (index : ℕ) (current : Str) (now : Timestamp)
  | dismiss (now : Timestamp)
  | restart (env : List (Str × Str)) (mutationsEnabled : Bool)

namespace SettingsServer
variable (rules : RedactionRules) (s : SettingsServer)

def respond (response : Except SettingsFailure (List ManagedSettingEntry)) : SettingsServer :=
  { s with responses := s.responses ++ [response] }

/-- The checks of a request, and the entries it reads before its transaction begins. -/
def submit (payload : ManagedSettingsUpdateRequest) : Except SettingsFailure SettingsRequest :=
  if s.settings.mutationsEnabled = false then .error (.http 403 "mutations are disabled".toList)
  else do
    let updates ← validatedManagedSettingUpdates rules s.settings payload
    let before ← managedSettingsEntriesFromValues rules s.settings s.rows
    pure ⟨updates,before⟩

/-- The transaction of a request: nothing is stored where the entries cannot be read. -/
def commit (request : SettingsRequest) (current : Str) (now : Timestamp) : SettingsServer :=
  let rows := applyManagedSettingUpdates current now s.rows request.updates
  match managedSettingsEntriesFromValues rules s.settings rows with
  | .error failure => s.respond (.error failure)
  | .ok after =>
    let changed : SettingsServer :=
      { s with
        rows
        audits := s.audits ++ [
          { keys := sortedSet (request.updates.map (·.key.name))
            before := managedSettingsAuditValues request.before
            after := managedSettingsAuditValues after }]
        history := s.history ++ request.changes }
    changed.respond (.ok after)

def step : SettingsAction → Option SettingsServer
  | .submit payload =>
    match s.submit rules payload with
    | .error failure => some (s.respond (.error failure))
    | .ok request => some { s with requests := s.requests ++ [request] }
  | .commit index current now =>
    (s.requests[index]?).map fun request =>
      ({ s with requests := s.requests.eraseIdx index } : SettingsServer).commit rules request current now
  | .dismiss now =>
    some
      { s with
        rows := Function.update s.rows ManagedKey.onboardingChecklist.dbKey (some now.1)
        history := s.history ++ [(.onboardingChecklist,"dismissed".toList)] }
  | .restart env mutationsEnabled =>
    (loadServerSettings env mutationsEnabled).toOption.map fun settings => { s with settings, requests := [] }

end SettingsServer

end Wudup

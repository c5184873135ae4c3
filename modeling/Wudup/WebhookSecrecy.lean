import Wudup.Library.TwoRuns
import Wudup.SettingsPage

/-! What the settings page, its answers and its audits say of the Discord webhook: whether there is one, and how one
was refused, and nothing else. -/
namespace Wudup
open Library

section
variable {rules : RedactionRules}

/-! Texts -/

/-- The same text, or two webhooks that are both empty or both not, and both taken or both refused alike. -/
def AlikeTexts (rules : RedactionRules) (name text other : Str) : Prop :=
  text = other ∨ (name = discordWebhookName ∧ (strip text = [] ↔ strip other = []) ∧
    SameOutcome (fun _ _ => True) (validatedDiscordWebhook rules (strip text))
      (validatedDiscordWebhook rules (strip other)))

def AlikeChange (rules : RedactionRules) (change other : ManagedKey × Str) : Prop :=
  change.1 = other.1 ∧ AlikeTexts rules change.1.name change.2 other.2

theorem AlikeChange.refl (change : ManagedKey × Str) : AlikeChange rules change change := ⟨rfl,.inl rfl⟩

/-- Two texts of a request under one key. -/
def AlikeEntry (rules : RedactionRules) (entry other : Str × Str) : Prop :=
  entry.1 = other.1 ∧ AlikeTexts rules entry.1 entry.2 other.2

def AlikeUpdate (rules : RedactionRules) (update other : ManagedSettingUpdate) : Prop :=
  AlikeChange rules (update.key,update.rawValue) (other.key,other.rawValue)

theorem configErrorTo422_alike {α β : Type} {R : α → β → Prop} {result : Except SettingsFailure α}
    {other : Except SettingsFailure β} (h : SameOutcome R result other) :
    SameOutcome R (configErrorTo422 result) (configErrorTo422 other) := by
  cases h with
  | ok h => exact .ok h
  | error failure => cases failure <;> exact .error _

section
variable {history others : List (ManagedKey × Str)}

/-- A setting was given the same text in both, or a webhook that is empty in both or in neither. -/
theorem chosen_alike (h : List.Forall₂ (AlikeChange rules) history others) (key : ManagedKey) :
    chosen key history = chosen key others ∨
      (key = .discordWebhook ∧ ((chosen key history).getD [] = [] ↔ (chosen key others).getD [] = [])) := by
  have hreverse := List.forall₂_reverse_iff.mpr h
  rw [chosen,chosen]
  generalize history.reverse = changes at hreverse ⊢
  generalize others.reverse = rest at hreverse ⊢
  induction hreverse with
  | nil => exact .inl rfl
  | @cons change other changes rest halike _ ih =>
    obtain ⟨changed,text⟩ := change
    obtain ⟨changedToo,otherText⟩ := other
    obtain ⟨rfl : changed = changedToo,htext⟩ := halike
    rw [List.lookup_cons,List.lookup_cons]
    by_cases hkey : key = changed
    · subst hkey
      rw [beq_self_eq_true]
      rcases htext with heq | ⟨hname,hempty,-⟩
      · exact .inl (congrArg (fun text => some (strip text)) heq)
      · exact .inr ⟨ManagedKey.name_injective hname,hempty⟩
    · rw [beq_false_of_ne hkey]
      exact ih

theorem chosen_same (h : List.Forall₂ (AlikeChange rules) history others) {key : ManagedKey}
    (hkey : key ≠ .discordWebhook) : chosen key history = chosen key others :=
  (chosen_alike h key).resolve_right fun hwebhook => hkey hwebhook.1

theorem chosen_webhook (h : List.Forall₂ (AlikeChange rules) history others) :
    (chosen .discordWebhook history).getD [] = [] ↔ (chosen .discordWebhook others).getD [] = [] := by
  rcases chosen_alike h .discordWebhook with heq | ⟨-,hempty⟩
  · rw [heq]
  · exact hempty

end

/-! Settings of the environment -/

/-- The same settings, but for a webhook that is there in both or in neither. -/
structure AlikeSettings (settings other : ServerSettings) : Prop where
  composeIgnorePaths : settings.composeIgnorePaths = other.composeIgnorePaths
  digestPinUpdates : settings.digestPinUpdates = other.digestPinUpdates
  releaseNotesEnabledEnv : settings.releaseNotesEnabledEnv = other.releaseNotesEnabledEnv
  mutationsEnabled : settings.mutationsEnabled = other.mutationsEnabled
  commandEnv : ∀ name, name ≠ discordWebhookEnvName → settings.commandEnv.lookup name = other.commandEnv.lookup name
  discordWebhook : settings.discordWebhookEnv.1 = [] ↔ other.discordWebhookEnv.1 = []

/-- The same variables, but for a webhook that is there in both or in neither. -/
structure AlikeEnv (env other : List (Str × Str)) : Prop where
  lookup : ∀ name, name ≠ discordWebhookEnvName → env.lookup name = other.lookup name
  webhook : strip ((env.lookup discordWebhookEnvName).getD []) = [] ↔
    strip ((other.lookup discordWebhookEnvName).getD []) = []

theorem discordWebhookEnv_eq_nil_iff {settings : ServerSettings} : settings.discordWebhookEnv.1 = [] ↔
    strip ((settings.commandEnv.lookup discordWebhookEnvName).getD []) = [] := by
  rw [ServerSettings.discordWebhookEnv]
  split
  · exact Iff.rfl
  · exact ⟨fun _ => not_not.mp ‹_›,fun _ => rfl⟩

theorem discordWebhookEnv_source {settings : ServerSettings} : settings.discordWebhookEnv.2 =
    if settings.discordWebhookEnv.1 = [] then [] else discordWebhookEnvName := by
  rw [ServerSettings.discordWebhookEnv]
  split
  · rfl
  · rfl

theorem AlikeEnv.load {env other : List (Str × Str)} {mutationsEnabled : Bool} {settings : ServerSettings}
    (h : AlikeEnv env other) (hload : loadServerSettings env mutationsEnabled = .ok settings) :
    ∃ settings', loadServerSettings other mutationsEnabled = .ok settings' ∧ AlikeSettings settings settings' := by
  have hpaths := h.lookup composeIgnorePathsEnv (by decide)
  have hpins := h.lookup digestPinUpdatesEnv (by decide)
  have hnotes := h.lookup releaseNotesEnabledEnvName (by decide)
  rw [loadServerSettings] at hload ⊢
  rw [← hpaths,← hpins,← hnotes]
  obtain ⟨paths,hpaths,hload⟩ := bind_eq_ok.mp hload
  obtain ⟨pins,hpins,hload⟩ := bind_eq_ok.mp hload
  obtain ⟨enabled,henabled,hload⟩ := bind_eq_ok.mp hload
  cases hload
  refine ⟨_,bind_eq_ok.mpr ⟨paths,hpaths,bind_eq_ok.mpr ⟨pins,hpins,bind_eq_ok.mpr ⟨enabled,henabled,rfl⟩⟩⟩,?_⟩
  refine ⟨rfl,rfl,rfl,rfl,h.lookup,?_⟩
  rw [discordWebhookEnv_eq_nil_iff,discordWebhookEnv_eq_nil_iff]
  exact h.webhook

namespace AlikeSettings
variable {settings other : ServerSettings}

theorem envConfigured (h : AlikeSettings settings other) {name : Str} (hname : name ≠ discordWebhookEnvName) :
    settings.envConfigured name = other.envConfigured name := by
  rw [ServerSettings.envConfigured,ServerSettings.envConfigured,h.commandEnv name hname]

theorem pathsConfigured (h : AlikeSettings settings other) :
    settings.envConfigured composeIgnorePathsEnv = other.envConfigured composeIgnorePathsEnv :=
  h.envConfigured (by decide)

theorem pinsConfigured (h : AlikeSettings settings other) :
    settings.envConfigured digestPinUpdatesEnv = other.envConfigured digestPinUpdatesEnv :=
  h.envConfigured (by decide)

theorem notesConfigured (h : AlikeSettings settings other) :
    settings.envConfigured releaseNotesEnabledEnvName = other.envConfigured releaseNotesEnabledEnvName :=
  h.envConfigured (by decide)

theorem reasonFor (h : AlikeSettings settings other) (key : ManagedKey) :
    settings.reasonFor key = other.reasonFor key := by
  cases key with
  | composeIgnorePaths =>
    change settings.composeIgnorePathsDisabledReason = other.composeIgnorePathsDisabledReason
    rw [ServerSettings.composeIgnorePathsDisabledReason,h.pathsConfigured]
    rfl
  | digestPinUpdates =>
    change settings.digestPinDisabledReason = other.digestPinDisabledReason
    rw [ServerSettings.digestPinDisabledReason,h.pinsConfigured]
    rfl
  | releaseNotesEnabled =>
    change settings.releaseNotesEnabledDisabledReason = other.releaseNotesEnabledDisabledReason
    rw [ServerSettings.releaseNotesEnabledDisabledReason,h.notesConfigured]
    rfl
  | discordWebhook =>
    change settings.discordWebhookDisabledReason = other.discordWebhookDisabledReason
    rw [ServerSettings.discordWebhookDisabledReason,ServerSettings.discordWebhookDisabledReason,
      discordWebhookEnv_source,discordWebhookEnv_source]
    simp only [h.discordWebhook]
  | _ => rfl

/-! The page -/

section
variable {history others : List (ManagedKey × Str)}

theorem shownValue (h : AlikeSettings settings other) (hhistory : List.Forall₂ (AlikeChange rules) history others)
    (key : ManagedKey) : shownValue settings history key = shownValue other others key := by
  by_cases hkey : key = .discordWebhook
  · subst hkey
    rfl
  · have hsame := chosen_same hhistory hkey
    cases key with
    | composeIgnorePaths =>
      rw [Wudup.shownValue,Wudup.shownValue,h.pathsConfigured,h.composeIgnorePaths,hsame]
    | digestPinUpdates => rw [Wudup.shownValue,Wudup.shownValue,h.pinsConfigured,h.digestPinUpdates,hsame]
    | releaseNotesEnabled =>
      rw [Wudup.shownValue,Wudup.shownValue,h.notesConfigured,h.releaseNotesEnabledEnv,hsame]
    | cooldownSeconds => rw [Wudup.shownValue,Wudup.shownValue,hsame]
    | discordWebhook => rfl
    | _ => exact congrArg (fun text : Option Str => text.getD (defaultText _)) hsame

theorem shownConfigured (h : AlikeSettings settings other)
    (hhistory : List.Forall₂ (AlikeChange rules) history others) (key : ManagedKey) :
    shownConfigured settings history key = shownConfigured other others key := by
  by_cases hkey : key = .discordWebhook
  · subst hkey
    rw [Wudup.shownConfigured,Wudup.shownConfigured]
    simp only [h.discordWebhook,chosen_webhook hhistory,ne_eq]
  · have hsame := chosen_same hhistory hkey
    cases key with
    | composeIgnorePaths => rw [Wudup.shownConfigured,Wudup.shownConfigured,h.pathsConfigured,hsame]
    | digestPinUpdates => rw [Wudup.shownConfigured,Wudup.shownConfigured,h.pinsConfigured,hsame]
    | releaseNotesEnabled => rw [Wudup.shownConfigured,Wudup.shownConfigured,h.notesConfigured,hsame]
    | onboardingChecklist => rw [Wudup.shownConfigured,Wudup.shownConfigured,hsame]
    | discordWebhook => exact absurd rfl hkey
    | _ => exact congrArg Option.isSome hsame

theorem page (h : AlikeSettings settings other) (hhistory : List.Forall₂ (AlikeChange rules) history others) :
    ManagedKey.all.map (pageEntry settings history) = ManagedKey.all.map (pageEntry other others) := by
  refine List.map_congr_left fun key _ => ?_
  rw [pageEntry,pageEntry,managedEntry,managedEntry,h.shownValue hhistory,h.shownConfigured hhistory,h.reasonFor]

end

/-! Requests -/

theorem validated_same (h : AlikeSettings settings other) (key : ManagedKey) (rawValue : Str) :
    validatedManagedSettingUpdate rules settings key rawValue =
      validatedManagedSettingUpdate rules other key rawValue := by
  have hlocked : raiseIfSettingLockedByEnv settings key = raiseIfSettingLockedByEnv other key := by
    have hpins := h.reasonFor .digestPinUpdates
    have hnotes := h.reasonFor .releaseNotesEnabled
    change settings.digestPinDisabledReason = other.digestPinDisabledReason at hpins
    change settings.releaseNotesEnabledDisabledReason = other.releaseNotesEnabledDisabledReason at hnotes
    rw [raiseIfSettingLockedByEnv,raiseIfSettingLockedByEnv,h.pinsConfigured,h.notesConfigured,hpins,hnotes]
  cases key with
  | composeIgnorePaths =>
    have hpaths := h.reasonFor .composeIgnorePaths
    change settings.composeIgnorePathsDisabledReason = other.composeIgnorePathsDisabledReason at hpaths
    change validatedComposeIgnorePathsUpdate settings rawValue = validatedComposeIgnorePathsUpdate other rawValue
    rw [validatedComposeIgnorePathsUpdate,validatedComposeIgnorePathsUpdate,h.pathsConfigured,hpaths]
  | discordWebhook =>
    have hwebhook := h.reasonFor .discordWebhook
    change settings.discordWebhookDisabledReason = other.discordWebhookDisabledReason at hwebhook
    change validatedDiscordWebhookUpdate rules settings rawValue = validatedDiscordWebhookUpdate rules other rawValue
    rw [validatedDiscordWebhookUpdate,validatedDiscordWebhookUpdate,hwebhook]
  | cooldownSeconds => rfl
  | digestPinUpdates => exact congrArg (· >>= fun _ => validatedChoiceSettingUpdate _ rawValue) hlocked
  | releaseNotesEnabled => exact congrArg (· >>= fun _ => validatedChoiceSettingUpdate _ rawValue) hlocked
  | _ => rfl

theorem validated (h : AlikeSettings settings other) {key : ManagedKey} {text otherText : Str}
    (htext : AlikeTexts rules key.name text otherText) :
    SameOutcome (fun _ _ => True) (validatedManagedSettingUpdate rules settings key text)
      (validatedManagedSettingUpdate rules other key otherText) := by
  rw [h.validated_same]
  rcases htext with rfl | ⟨hname,hempty,hchecked⟩
  · exact .refl (fun _ => trivial) _
  · obtain rfl : key = .discordWebhook := ManagedKey.name_injective hname
    change SameOutcome _ (validatedDiscordWebhookUpdate rules other text)
      (validatedDiscordWebhookUpdate rules other otherText)
    rw [validatedDiscordWebhookUpdate,validatedDiscordWebhookUpdate]
    simp only [hempty]
    split
    · exact .error _
    · split
      · exact .ok trivial
      · exact configErrorTo422_alike hchecked

theorem validatedEntry (h : AlikeSettings settings other) {entry otherEntry : Str × Str}
    (hentry : AlikeEntry rules entry otherEntry) :
    SameOutcome (AlikeUpdate rules) (validatedEntry rules settings entry) (validatedEntry rules other otherEntry) := by
  obtain ⟨name,text⟩ := entry
  obtain ⟨otherName,otherText⟩ := otherEntry
  obtain ⟨rfl : name = otherName,htext⟩ := hentry
  rw [Wudup.validatedEntry.eq_def,Wudup.validatedEntry.eq_def]
  cases hfind : ManagedKey.all.find? (·.name = name) with
  | none => exact .error _
  | some key =>
    obtain rfl : key.name = name := by simpa using List.find?_some hfind
    exact (h.validated htext).map fun _ _ _ => ⟨rfl,htext⟩

theorem validatedUpdates (h : AlikeSettings settings other) {payload otherPayload : ManagedSettingsUpdateRequest}
    (hpayload : List.Forall₂ (AlikeEntry rules) payload.values otherPayload.values) :
    SameOutcome (List.Forall₂ (AlikeUpdate rules)) (validatedManagedSettingUpdates rules settings payload)
      (validatedManagedSettingUpdates rules other otherPayload) := by
  have hnil : payload.values = [] ↔ otherPayload.values = [] := by
    rw [← List.length_eq_zero_iff,← List.length_eq_zero_iff,hpayload.length_eq]
  rw [validatedManagedSettingUpdates,validatedManagedSettingUpdates]
  simp only [hnil]
  split
  · exact .error _
  · exact .mapM hpayload fun _ _ => h.validatedEntry

end AlikeSettings

/-! Runs -/

/-- Requests with alike changes, which read the same page before. -/
structure AlikeRequests (rules : RedactionRules) (request other : SettingsRequest) : Prop where
  changes : List.Forall₂ (AlikeChange rules) request.changes other.changes
  before : request.before = other.before

inductive AlikeActions (rules : RedactionRules) : SettingsAction → SettingsAction → Prop where
  | submit {payload other : ManagedSettingsUpdateRequest}
      (h : List.Forall₂ (AlikeEntry rules) payload.values other.values) :
      AlikeActions rules (.submit payload) (.submit other)
  | commit (index : ℕ) (current : Str) (now : Timestamp) :
      AlikeActions rules (.commit index current now) (.commit index current now)
  | dismiss (now : Timestamp) : AlikeActions rules (.dismiss now) (.dismiss now)
  | restart {env other : List (Str × Str)} (h : AlikeEnv env other) (mutationsEnabled : Bool) :
      AlikeActions rules (.restart env mutationsEnabled) (.restart other mutationsEnabled)

/-- Two servers that answered and recorded the same, and differ in webhooks only. -/
structure AlikeServers (rules : RedactionRules) (s t : SettingsServer) : Prop where
  sound : s.Sound rules
  otherSound : t.Sound rules
  settings : AlikeSettings s.settings t.settings
  history : List.Forall₂ (AlikeChange rules) s.history t.history
  requests : List.Forall₂ (AlikeRequests rules) s.requests t.requests
  responses : s.responses = t.responses
  audits : s.audits = t.audits

namespace AlikeServers
variable {s t u : SettingsServer}

theorem submit (h : AlikeServers rules s t) {payload other : ManagedSettingsUpdateRequest}
    (hpayload : List.Forall₂ (AlikeEntry rules) payload.values other.values) :
    SameOutcome (AlikeRequests rules) (s.submit rules payload) (t.submit rules other) := by
  rw [SettingsServer.submit,SettingsServer.submit,h.settings.mutationsEnabled,h.sound.rows.entries,
    h.otherSound.rows.entries,h.settings.page h.history]
  split
  · exact .error _
  · refine (h.settings.validatedUpdates hpayload).bind fun updates others hupdates => .ok ⟨?_,rfl⟩
    exact List.forall₂_map_left_iff.mpr (List.forall₂_map_right_iff.mpr hupdates)

theorem commit (h : AlikeServers rules s t) {request other : SettingsRequest}
    (hrequest : AlikeRequests rules request other)
    (hvalid : ∀ update ∈ request.updates,
      validatedManagedSettingUpdate rules s.settings update.key update.rawValue = .ok update.value)
    (hotherValid : ∀ update ∈ other.updates,
      validatedManagedSettingUpdate rules t.settings update.key update.rawValue = .ok update.value)
    (current : Str) (now : Timestamp) :
    AlikeServers rules (s.commit rules request current now) (t.commit rules other current now) := by
  have hrows : RowsFor rules (s.history ++ request.changes)
      (applyManagedSettingUpdates current now s.rows request.updates) := h.sound.rows.updates hvalid
  have hotherRows : RowsFor rules (t.history ++ other.changes)
      (applyManagedSettingUpdates current now t.rows other.updates) := h.otherSound.rows.updates hotherValid
  have hhistory : List.Forall₂ (AlikeChange rules) (s.history ++ request.changes) (t.history ++ other.changes) :=
    List.rel_append h.history hrequest.changes
  have hkeys : request.updates.map (·.key.name) = other.updates.map (·.key.name) := by
    have hupdates := hrequest.changes
    rw [SettingsRequest.changes,SettingsRequest.changes,List.forall₂_map_left_iff,
      List.forall₂_map_right_iff] at hupdates
    rw [← List.forall₂_eq_eq_eq,List.forall₂_map_left_iff,List.forall₂_map_right_iff]
    exact hupdates.imp fun _ _ hupdate => congrArg ManagedKey.name hupdate.1
  have hsound : (s.commit rules request current now).Sound rules := h.sound.commit hvalid
  have hotherSound : (t.commit rules other current now).Sound rules := h.otherSound.commit hotherValid
  rw [SettingsServer.commit_eq hrows.entries] at hsound ⊢
  rw [SettingsServer.commit_eq hotherRows.entries] at hotherSound ⊢
  have hpage := h.settings.page hhistory
  refine ⟨hsound,hotherSound,h.settings,hhistory,h.requests,?_,?_⟩
  · exact congrArg₂ (fun responses page => responses ++ [.ok page]) h.responses hpage
  · rw [h.audits,hkeys,hrequest.before,hpage]

theorem step (h : AlikeServers rules s t) {action other : SettingsAction} (haction : AlikeActions rules action other)
    (hstep : s.step rules action = some u) : ∃ v, t.step rules other = some v ∧ AlikeServers rules u v := by
  have hsoundStep : ∀ {v}, t.step rules other = some v → v.Sound rules := fun hv => h.otherSound.step hv
  have hsound := h.sound.step hstep
  cases haction with
  | @submit payload other hpayload =>
    have houtcome := h.submit hpayload
    simp only [SettingsServer.step] at hstep hsoundStep ⊢
    generalize s.submit rules payload = result at houtcome hstep
    generalize t.submit rules other = otherResult at houtcome hsoundStep ⊢
    cases houtcome with
    | ok hrequest =>
      cases hstep
      refine ⟨_,rfl,hsound,hsoundStep rfl,h.settings,h.history,?_,h.responses,h.audits⟩
      exact List.rel_append h.requests (.cons hrequest .nil)
    | error failure =>
      cases hstep
      refine ⟨_,rfl,hsound,hsoundStep rfl,h.settings,h.history,h.requests,?_,h.audits⟩
      exact congrArg (· ++ [.error failure]) h.responses
  | commit index current now =>
    obtain ⟨request,hrequest,rfl⟩ := Option.map_eq_some_iff.mp hstep
    obtain ⟨otherRequest,hotherRequest,halike⟩ := getElem?_of_forall₂ h.requests hrequest
    have hrest : AlikeServers rules { s with requests := s.requests.eraseIdx index }
        { t with requests := t.requests.eraseIdx index } :=
      ⟨⟨h.sound.rows,fun other hother => h.sound.requests other (List.mem_of_mem_eraseIdx hother)⟩,
        ⟨h.otherSound.rows,fun other hother => h.otherSound.requests other (List.mem_of_mem_eraseIdx hother)⟩,
        h.settings,h.history,forall₂_eraseIdx h.requests index,h.responses,h.audits⟩
    refine ⟨_,Option.map_eq_some_iff.mpr ⟨otherRequest,hotherRequest,rfl⟩,?_⟩
    exact hrest.commit halike (h.sound.requests request (List.mem_of_getElem? hrequest))
      (h.otherSound.requests otherRequest (List.mem_of_getElem? hotherRequest)) current now
  | dismiss now =>
    cases hstep
    refine ⟨_,rfl,hsound,hsoundStep rfl,h.settings,?_,h.requests,h.responses,h.audits⟩
    exact List.rel_append h.history (.cons (.refl _) .nil)
  | @restart env other henv mutationsEnabled =>
    simp only [SettingsServer.step] at hstep hsoundStep ⊢
    cases hload : loadServerSettings env mutationsEnabled with
    | error failure =>
      rw [hload] at hstep
      cases hstep
    | ok settings =>
      obtain ⟨otherSettings,hotherLoad,hsettings⟩ := henv.load hload
      rw [hload] at hstep
      cases hstep
      rw [hotherLoad] at hsoundStep ⊢
      exact ⟨_,rfl,hsound,hsoundStep rfl,hsettings,h.history,.nil,h.responses,h.audits⟩

end AlikeServers

end

/-- Where two runs differ in webhooks only, and each webhook is empty, taken or refused as the other is, they go through
alike, and have the same answers, the same audits and the same page: which webhook it is cannot be told from them. -/
theorem webhook_not_told {rules : RedactionRules} {settings other : ServerSettings}
    {actions others : List SettingsAction} {s : SettingsServer} (hsettings : AlikeSettings settings other)
    (hactions : List.Forall₂ (AlikeActions rules) actions others)
    (h : System.run (SettingsServer.step rules) { settings } actions = some s) :
    ∃ t, System.run (SettingsServer.step rules) { settings := other } others = some t ∧
      t.responses = s.responses ∧ t.audits = s.audits ∧
      managedSettingsEntriesFromValues rules t.settings t.rows =
        managedSettingsEntriesFromValues rules s.settings s.rows := by
  have hstart : AlikeServers rules { settings } { settings := other } :=
    ⟨SettingsServer.sound_start settings,SettingsServer.sound_start other,hsettings,.nil,.nil,rfl,rfl⟩
  have hstep : ∀ s t action other u, AlikeServers rules s t → AlikeActions rules action other →
      SettingsServer.step rules s action = some u →
      ∃ v, SettingsServer.step rules t other = some v ∧ AlikeServers rules u v :=
    fun _ _ _ _ _ hservers haction hstep => hservers.step haction hstep
  obtain ⟨t,ht,halike⟩ := System.run_simulates hstep hstart hactions h
  refine ⟨t,ht,halike.responses.symm,halike.audits.symm,?_⟩
  rw [halike.sound.rows.entries,halike.otherSound.rows.entries,halike.settings.page halike.history]

def firstWebhook : Str := "https://discord.com/api/webhooks/1/first".toList
def secondWebhook : Str := "https://ptb.discord.com/api/webhooks/2/second".toList

def webhookActions (webhook : Str) : List SettingsAction :=
  [.submit ⟨[(discordWebhookName,webhook)],List.nodup_singleton _⟩,.commit 0 [] ⟨['2'],by decide⟩]

theorem webhook_not_told_webhooks : ∃ s t,
    System.run (SettingsServer.step openRules) { settings := {} } (webhookActions firstWebhook) = some s ∧
      System.run (SettingsServer.step openRules) { settings := {} } (webhookActions secondWebhook) = some t ∧
      s.rows.webSetting .discordWebhook = firstWebhook ∧ t.responses = s.responses ∧ t.audits = s.audits := by
  have hrun : (System.run (SettingsServer.step openRules) { settings := {} } (webhookActions firstWebhook)).map
      (fun s => s.rows.webSetting .discordWebhook) = some firstWebhook := by decide +kernel
  have hfirst : validatedDiscordWebhook openRules (strip firstWebhook) = .ok firstWebhook := by decide +kernel
  have hsecond : validatedDiscordWebhook openRules (strip secondWebhook) = .ok secondWebhook := by decide +kernel
  have htexts : AlikeTexts openRules discordWebhookName firstWebhook secondWebhook :=
    .inr ⟨rfl,by decide +kernel,by rw [hfirst,hsecond]; exact .ok trivial⟩
  obtain ⟨s,hs,hwebhook⟩ := Option.map_eq_some_iff.mp hrun
  have hsettings : AlikeSettings {} {} := ⟨rfl,rfl,rfl,rfl,fun _ _ => rfl,Iff.rfl⟩
  have hactions : List.Forall₂ (AlikeActions openRules) (webhookActions firstWebhook)
      (webhookActions secondWebhook) :=
    .cons (.submit (.cons ⟨rfl,htexts⟩ .nil)) (.cons (.commit 0 [] _) .nil)
  obtain ⟨t,ht,hresponses,haudits,-⟩ := webhook_not_told hsettings hactions hs
  exact ⟨s,t,hs,ht,hwebhook,hresponses,haudits⟩

end Wudup

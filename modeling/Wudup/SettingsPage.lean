import Wudup.SettingsInEffect

/-! What the settings page shows and offers after any run of changes, and what it never shows. -/
namespace Wudup
open Library

/-! Entries -/

def defaultText : ManagedKey → Str
  | .themePreference => "system".toList
  | .onboardingChecklist => "visible".toList
  | .sidebarBadges => "true".toList
  | .composeIgnorePaths | .discordWebhook => []
  | .digestPinUpdates | .retagDigestPins | .releaseNotesEnabled => "false".toList
  | .deliveryMode => "on_detection".toList
  | .mode => "digest".toList
  | .resendPolicy => "remote_change".toList
  | .cooldownSeconds => Nat.toDigits 10 defaultCooldownSeconds
  | .verbosity => "summary".toList

section
variable (settings : ServerSettings) (history : List (ManagedKey × Str))

/-- The value of a setting, as the environment or its last change has it; a webhook is not shown. -/
def shownValue (key : ManagedKey) : Str :=
  match key with
  | .composeIgnorePaths =>
    formatComposeIgnorePaths
      (if settings.envConfigured composeIgnorePathsEnv then settings.composeIgnorePaths
      else
        (parseComposeIgnorePaths ManagedKey.composeIgnorePaths.name
          (chosen .composeIgnorePaths history)).toOption.getD [])
  | .digestPinUpdates =>
    if settings.envConfigured digestPinUpdatesEnv then formatBool settings.digestPinUpdates
    else (chosen .digestPinUpdates history).getD (defaultText .digestPinUpdates)
  | .releaseNotesEnabled =>
    if settings.envConfigured releaseNotesEnabledEnvName then
      formatBool (settings.releaseNotesEnabledEnv.getD false)
    else (chosen .releaseNotesEnabled history).getD (defaultText .releaseNotesEnabled)
  | .cooldownSeconds =>
    Nat.toDigits 10
      ((parsePositiveIntSetting ManagedKey.cooldownSeconds.name ((chosen .cooldownSeconds history).getD [])
        defaultCooldownSeconds).toOption.getD defaultCooldownSeconds)
  | .discordWebhook => []
  | key => (chosen key history).getD (defaultText key)

/-- The value is one of the environment, or one that was set. -/
def shownConfigured (key : ManagedKey) : Bool :=
  match key with
  | .composeIgnorePaths => settings.envConfigured composeIgnorePathsEnv || (chosen .composeIgnorePaths history).isSome
  | .digestPinUpdates => settings.envConfigured digestPinUpdatesEnv || (chosen .digestPinUpdates history).isSome
  | .releaseNotesEnabled =>
    settings.envConfigured releaseNotesEnabledEnvName || (chosen .releaseNotesEnabled history).isSome
  | .onboardingChecklist => chosen .onboardingChecklist history = some "dismissed".toList
  | .discordWebhook => settings.discordWebhookEnv.1 ≠ [] || (chosen .discordWebhook history).getD [] ≠ []
  | key => (chosen key history).isSome

def pageEntry (key : ManagedKey) : ManagedSettingEntry :=
  { managedEntry settings key (shownValue settings history key) (defaultText key)
      (shownConfigured settings history key) with
    configured := key = .discordWebhook && shownConfigured settings history key
    sensitive := key = .discordWebhook }

end

section
variable {rules : RedactionRules} {settings : ServerSettings} {history : List (ManagedKey × Str)}
  {rows : StoredSettings}

theorem RowsFor.switchEntry (h : RowsFor rules history rows) {key : ManagedKey}
    (hkey : key ∈ [.sidebarBadges,.digestPinUpdates,.retagDigestPins,.releaseNotesEnabled]) (default : Bool) :
    switchEntry settings rows key default = .ok (managedEntry settings key
      ((chosen key history).getD (formatBool default)) (formatBool default) (chosen key history).isSome) := by
  obtain ⟨hrow,hread⟩ := h.switch hkey default
  have hshown : formatBool ((chosen key history).elim default fun text => text = "true".toList) =
      (chosen key history).getD (formatBool default) := by
    have hall : (chosen key history).all (· ∈ ["false".toList,"true".toList]) = true := by
      have hrowFor := h key
      simp only [List.mem_cons,List.not_mem_nil,or_false] at hkey
      rcases hkey with rfl | rfl | rfl | rfl <;> exact hrowFor.2
    cases hchosen : chosen key history with
    | none => rfl
    | some text =>
      rw [hchosen] at hall
      have htext := of_decide_eq_true hall
      simp only [List.mem_cons,List.not_mem_nil,or_false] at htext
      rcases htext with rfl | rfl <;> rfl
  rw [Wudup.switchEntry,hread,hrow]
  exact congrArg (fun value => Except.ok (managedEntry settings key value _ _)) hshown

theorem RowsFor.themePreferenceEntry (h : RowsFor rules history rows) :
    themePreferenceEntry settings rows = pageEntry settings history .themePreference := by
  obtain ⟨hrow,hallowed⟩ := h.choice (by simp : ManagedKey.themePreference ∈ _)
  have hvalue : rows.webSetting .themePreference = (chosen .themePreference history).getD [] := by
    rw [StoredSettings.webSetting,hrow]
  rw [Wudup.themePreferenceEntry,hvalue]
  change managedEntry settings .themePreference _ _ _ = managedEntry settings .themePreference
    ((chosen .themePreference history).getD (defaultText .themePreference)) _ (chosen .themePreference history).isSome
  cases hchosen : chosen .themePreference history with
  | none => rfl
  | some text =>
    rw [hchosen] at hallowed
    have hmem : text ∈ ManagedKey.themePreference.allowedValues := of_decide_eq_true hallowed
    rw [Option.getD_some,Option.getD_some,if_pos hmem,decide_eq_true hmem]
    rfl

theorem RowsFor.onboardingChecklistEntry (h : RowsFor rules history rows) :
    onboardingChecklistEntry settings rows = pageEntry settings history .onboardingChecklist := by
  obtain ⟨hallowed,hrow,hne⟩ := h .onboardingChecklist
  have hstored : rows.webSetting .onboardingChecklist ≠ [] ↔
      chosen .onboardingChecklist history = some "dismissed".toList := by
    rw [← hrow,StoredSettings.webSetting]
    cases hvalue : rows ManagedKey.onboardingChecklist.dbKey with
    | none => simp
    | some text =>
      rw [hvalue] at hne
      have htext : text ≠ [] := fun hempty => hne (congrArg some hempty)
      simpa using htext
  rw [Wudup.onboardingChecklistEntry]
  change managedEntry settings .onboardingChecklist _ _ _ = managedEntry settings .onboardingChecklist
    ((chosen .onboardingChecklist history).getD (defaultText .onboardingChecklist)) _
    (chosen .onboardingChecklist history = some "dismissed".toList)
  cases hchosen : chosen .onboardingChecklist history with
  | none =>
    have hempty : ¬ rows.webSetting .onboardingChecklist ≠ [] := fun hs => by
      rw [hchosen] at hstored
      cases hstored.mp hs
    rw [if_neg hempty,decide_eq_false hempty]
    rfl
  | some text =>
    rw [hchosen] at hallowed hstored
    have htext : text = "visible".toList ∨ text = "dismissed".toList := by
      have hmem := of_decide_eq_true hallowed
      simpa [ManagedKey.allowedValues] using hmem
    rcases htext with rfl | rfl
    · have hempty : ¬ rows.webSetting .onboardingChecklist ≠ [] := fun hs =>
        absurd (hstored.mp hs) (by decide)
      rw [if_neg hempty,decide_eq_false hempty]
      rfl
    · rw [if_pos (hstored.mpr rfl),decide_eq_true (hstored.mpr rfl)]
      rfl

theorem RowsFor.composeIgnorePathsEntry (h : RowsFor rules history rows) :
    composeIgnorePathsEntry settings rows = .ok (pageEntry settings history .composeIgnorePaths) := by
  obtain ⟨paths,hchosen,hstored,hsome⟩ := h.composeIgnorePaths
  change _ = Except.ok (managedEntry settings .composeIgnorePaths (shownValue settings history .composeIgnorePaths) _
    (shownConfigured settings history .composeIgnorePaths))
  rw [Wudup.composeIgnorePathsEntry,effectiveComposeIgnorePaths,shownValue,shownConfigured,hsome]
  split
  · rfl
  · rw [hstored,hchosen]
    rfl

theorem RowsFor.digestPinUpdatesEntry (h : RowsFor rules history rows) :
    digestPinUpdatesEntry settings rows = .ok (pageEntry settings history .digestPinUpdates) := by
  change _ = Except.ok (managedEntry settings .digestPinUpdates (shownValue settings history .digestPinUpdates) _
    (shownConfigured settings history .digestPinUpdates))
  rw [Wudup.digestPinUpdatesEntry,shownValue,shownConfigured]
  split
  · rename_i henv
    rw [henv]
    rfl
  · rename_i henv
    rw [h.switchEntry (by simp) false,Bool.eq_false_of_not_eq_true henv]
    rfl

theorem RowsFor.releaseNotesEnabledEntry (h : RowsFor rules history rows) :
    releaseNotesEnabledEntry settings rows = .ok (pageEntry settings history .releaseNotesEnabled) := by
  change _ = Except.ok (managedEntry settings .releaseNotesEnabled
    (shownValue settings history .releaseNotesEnabled) _ (shownConfigured settings history .releaseNotesEnabled))
  rw [Wudup.releaseNotesEnabledEntry,shownValue,shownConfigured]
  split
  · rename_i henv
    rw [henv]
    rfl
  · rename_i henv
    rw [h.switchEntry (by simp) false,Bool.eq_false_of_not_eq_true henv]
    rfl

theorem RowsFor.discordWebhookEntry (h : RowsFor rules history rows) :
    discordWebhookEntry rules settings rows = .ok (pageEntry settings history .discordWebhook) := by
  obtain ⟨hwebhook,hvalid⟩ := h.discordWebhook
  have hentry : ({ managedEntry settings .discordWebhook [] []
      (settings.discordWebhookEnv.1 ≠ [] || rows.webSetting .discordWebhook ≠ []) with
        configured := settings.discordWebhookEnv.1 ≠ [] || rows.webSetting .discordWebhook ≠ []
        sensitive := true } : ManagedSettingEntry) = pageEntry settings history .discordWebhook := by
    rw [hwebhook]
    rfl
  rw [Wudup.discordWebhookEntry]
  dsimp only
  split
  · rename_i hstored
    rw [hvalid hstored.1]
    exact congrArg Except.ok hentry
  · exact congrArg Except.ok hentry

theorem RowsFor.releaseNotificationEntries (h : RowsFor rules history rows) :
    releaseNotificationEntries rules settings rows = .ok
      ([.deliveryMode,.mode,.resendPolicy,.cooldownSeconds,.discordWebhook,.verbosity].map
        (pageEntry settings history)) := by
  obtain ⟨n,-,hnumber,hcooldown,hsome⟩ := h.cooldownSeconds
  have hcooldownEntry : pageEntry settings history .cooldownSeconds =
      managedEntry settings .cooldownSeconds (Nat.toDigits 10 n) (Nat.toDigits 10 defaultCooldownSeconds)
        (rows ManagedKey.cooldownSeconds.dbKey).isSome := by
    change managedEntry settings .cooldownSeconds (shownValue settings history .cooldownSeconds) _
      (chosen .cooldownSeconds history).isSome = _
    rw [shownValue,hnumber,hsome]
    rfl
  have hchoice : ∀ key ∈ [ManagedKey.deliveryMode,.mode,.resendPolicy,.verbosity], pageEntry settings history key =
      managedEntry settings key ((chosen key history).getD (defaultText key)) (defaultText key)
        (rows key.dbKey).isSome := by
    intro key hkey
    rw [(h.choice (List.mem_cons_of_mem _ hkey)).1]
    simp only [List.mem_cons,List.not_mem_nil,or_false] at hkey
    rcases hkey with rfl | rfl | rfl | rfl <;> rfl
  rw [Wudup.releaseNotificationEntries,releaseNotificationConfigFromValues,h.choiceValue (by simp) (by decide),
    h.choiceValue (by simp) (by decide),h.choiceValue (by simp) (by decide),hcooldown,
    h.choiceValue (by simp) (by decide),h.discordWebhookEntry]
  simp only [List.map_cons,List.map_nil]
  rw [hchoice .deliveryMode (by simp),hchoice .mode (by simp),hchoice .resendPolicy (by simp),hcooldownEntry,
    hchoice .verbosity (by simp)]
  rfl

/-- The page has the entry of every setting, in order. -/
theorem RowsFor.entries (h : RowsFor rules history rows) :
    managedSettingsEntriesFromValues rules settings rows = .ok (ManagedKey.all.map (pageEntry settings history)) := by
  have hsidebar : sidebarBadgesEntry settings rows = .ok (pageEntry settings history .sidebarBadges) :=
    h.switchEntry (by simp) true
  have hretag : retagDigestPinsEntry settings rows = .ok (pageEntry settings history .retagDigestPins) :=
    h.switchEntry (by simp) false
  rw [managedSettingsEntriesFromValues,hsidebar,h.composeIgnorePathsEntry,h.digestPinUpdatesEntry,hretag,
    h.releaseNotesEnabledEntry,h.releaseNotificationEntries,h.themePreferenceEntry,h.onboardingChecklistEntry]
  rfl

/-! What can be changed -/

theorem disabledReason_eq_nil_iff {configured : Bool} {source : Str} {what : String} :
    ServerSettings.disabledReason configured source what = [] ↔ configured = false := by
  rw [ServerSettings.disabledReason]
  cases configured with
  | false => exact ⟨fun _ => rfl,fun _ => rfl⟩
  | true =>
    rw [if_pos rfl]
    simp

theorem raiseIfSettingLockedByEnv_ok_iff {key : ManagedKey}
    (hkey : key ∈ [ManagedKey.digestPinUpdates,.releaseNotesEnabled]) :
    raiseIfSettingLockedByEnv settings key = .ok () ↔ settings.reasonFor key = [] := by
  simp only [List.mem_cons,List.not_mem_nil,or_false] at hkey
  rcases hkey with rfl | rfl
  · change _ ↔ ServerSettings.disabledReason (settings.envConfigured digestPinUpdatesEnv) _ _ = []
    rw [raiseIfSettingLockedByEnv,disabledReason_eq_nil_iff]
    cases settings.envConfigured digestPinUpdatesEnv with
    | false => exact ⟨fun _ => rfl,fun _ => rfl⟩
    | true => exact ⟨fun h => (by cases h),fun h => (by cases h)⟩
  · change _ ↔ ServerSettings.disabledReason (settings.envConfigured releaseNotesEnabledEnvName) _ _ = []
    rw [raiseIfSettingLockedByEnv,disabledReason_eq_nil_iff]
    cases settings.envConfigured releaseNotesEnabledEnvName with
    | false => exact ⟨fun _ => rfl,fun _ => rfl⟩
    | true => exact ⟨fun h => (by cases h),fun h => (by cases h)⟩

theorem valid_choice {key : ManagedKey} (hkey : key ∈ [ManagedKey.themePreference,.onboardingChecklist,.sidebarBadges,
    .retagDigestPins,.deliveryMode,.mode,.resendPolicy,.verbosity]) :
    validatedManagedSettingUpdate rules settings key (defaultText key) = .ok (defaultText key) := by
  simp only [List.mem_cons,List.not_mem_nil,or_false] at hkey
  rcases hkey with rfl | rfl | rfl | rfl | rfl | rfl | rfl | rfl <;> rfl

/-- A setting takes some value exactly where no reason against it is shown. -/
theorem exists_valid_iff {key : ManagedKey} :
    (∃ rawValue value, validatedManagedSettingUpdate rules settings key rawValue = .ok value) ↔
      settings.reasonFor key = [] := by
  have hlocked : ∀ {key : ManagedKey}, key ∈ [ManagedKey.digestPinUpdates,.releaseNotesEnabled] →
      ((∃ rawValue value, (do
          raiseIfSettingLockedByEnv settings key
          validatedChoiceSettingUpdate key rawValue) = .ok value) ↔ settings.reasonFor key = []) := by
    intro key hkey
    have hfalse : validatedChoiceSettingUpdate key "false".toList = .ok "false".toList := by
      simp only [List.mem_cons,List.not_mem_nil,or_false] at hkey
      rcases hkey with rfl | rfl <;> rfl
    constructor
    · rintro ⟨rawValue,value,h⟩
      obtain ⟨_,hlock,-⟩ := bind_eq_ok.mp h
      exact (raiseIfSettingLockedByEnv_ok_iff hkey).mp hlock
    · intro hreason
      exact ⟨_,_,bind_eq_ok.mpr ⟨(),(raiseIfSettingLockedByEnv_ok_iff hkey).mpr hreason,hfalse⟩⟩
  cases key with
  | composeIgnorePaths =>
    change (∃ rawValue value, validatedComposeIgnorePathsUpdate settings rawValue = .ok value) ↔
      settings.composeIgnorePathsDisabledReason = []
    rw [ServerSettings.composeIgnorePathsDisabledReason,disabledReason_eq_nil_iff]
    constructor
    · rintro ⟨rawValue,value,h⟩
      rw [validatedComposeIgnorePathsUpdate] at h
      split at h
      · cases h
      · exact Bool.eq_false_of_not_eq_true ‹_›
    · intro henv
      refine ⟨[],[],?_⟩
      rw [validatedComposeIgnorePathsUpdate,henv,if_neg Bool.false_ne_true]
      rfl
  | digestPinUpdates => exact hlocked (by simp)
  | releaseNotesEnabled => exact hlocked (by simp)
  | discordWebhook =>
    change _ ↔ settings.discordWebhookDisabledReason = []
    constructor
    · rintro ⟨rawValue,value,h⟩
      obtain ⟨_,-,h⟩ := bind_eq_ok.mp h
      change validatedDiscordWebhookUpdate rules settings rawValue = .ok value at h
      rw [validatedDiscordWebhookUpdate] at h
      split at h
      · cases h
      · exact not_not.mp ‹_›
    · intro hreason
      refine ⟨[],[],bind_eq_ok.mpr ⟨(),rfl,?_⟩⟩
      change validatedDiscordWebhookUpdate rules settings [] = .ok []
      rw [validatedDiscordWebhookUpdate,if_neg (not_not_intro hreason)]
      rfl
  | cooldownSeconds => exact ⟨fun _ => rfl,fun _ => ⟨[],Nat.toDigits 10 defaultCooldownSeconds,rfl⟩⟩
  | _ => exact ⟨fun _ => rfl,fun _ => ⟨_,_,valid_choice (by simp)⟩⟩

end

/-- A request that gives one setting a text. -/
def settingRequest (key : ManagedKey) (rawValue : Str) : ManagedSettingsUpdateRequest :=
  ⟨[(key.name,rawValue)],List.nodup_singleton _⟩

theorem validatedEntry_name {rules : RedactionRules} {settings : ServerSettings} (key : ManagedKey) (rawValue : Str) :
    validatedEntry rules settings (key.name,rawValue) =
      (validatedManagedSettingUpdate rules settings key rawValue).map fun value => ⟨key,rawValue,value⟩ := by
  rw [validatedEntry,ManagedKey.find?_name]

theorem editable_iff {rules : RedactionRules} {s : SettingsServer} (hsound : s.Sound rules) (key : ManagedKey) :
    (s.settings.mutationsEnabled = true ∧ (pageEntry s.settings s.history key).editable = true) ↔
      ∃ rawValue request, s.submit rules (settingRequest key rawValue) = .ok request := by
  have heditable : (pageEntry s.settings s.history key).editable = true ↔ s.settings.reasonFor key = [] :=
    decide_eq_true_iff
  have hvalid : (∃ rawValue value, validatedManagedSettingUpdate rules s.settings key rawValue = .ok value) ↔
      s.settings.reasonFor key = [] := exists_valid_iff
  rw [heditable,← hvalid]
  constructor
  · rintro ⟨henabled,rawValue,value,hvalue⟩
    refine ⟨rawValue,⟨[⟨key,rawValue,value⟩],ManagedKey.all.map (pageEntry s.settings s.history)⟩,?_⟩
    rw [SettingsServer.submit,henabled,if_neg (by simp),hsound.rows.entries,validatedManagedSettingUpdates,
      if_neg (by simp [settingRequest])]
    change (do
      let updates ← [(key.name,rawValue)].mapM (validatedEntry rules s.settings)
      _) = _
    rw [List.mapM_cons,validatedEntry_name,hvalue]
    rfl
  · rintro ⟨rawValue,request,hsubmit⟩
    obtain ⟨henabled,hupdates,-⟩ := SettingsServer.submit_ok hsubmit
    rw [validatedManagedSettingUpdates,if_neg (by simp [settingRequest])] at hupdates
    change [(key.name,rawValue)].mapM (validatedEntry rules s.settings) = _ at hupdates
    rw [List.mapM_cons,validatedEntry_name] at hupdates
    obtain ⟨update,hupdate,-⟩ := bind_eq_ok.mp hupdates
    cases hvalue : validatedManagedSettingUpdate rules s.settings key rawValue with
    | error failure =>
      rw [hvalue] at hupdate
      cases hupdate
    | ok value => exact ⟨henabled,rawValue,value,hvalue⟩

/-- A request commits where the entries can be read. -/
theorem SettingsServer.commit_eq {rules : RedactionRules} {s : SettingsServer} {request : SettingsRequest}
    {current : Str} {now : Timestamp} {after : List ManagedSettingEntry}
    (h : managedSettingsEntriesFromValues rules s.settings
      (applyManagedSettingUpdates current now s.rows request.updates) = .ok after) :
    s.commit rules request current now =
      { s with
        rows := applyManagedSettingUpdates current now s.rows request.updates
        responses := s.responses ++ [.ok after]
        audits := s.audits ++ [
          { keys := sortedSet (request.updates.map (·.key.name))
            before := managedSettingsAuditValues request.before
            after := managedSettingsAuditValues after }]
        history := s.history ++ request.changes } := by
  rw [SettingsServer.commit.eq_def]
  dsimp only
  rw [h]
  rfl

/-- After any run, the page shows of every setting the value that is in effect, and lets it be edited exactly where a
request to change it is taken; and a request under way goes through, and is answered with the page that its own
changes lead to. -/
theorem settings_page {rules : RedactionRules} {settings : ServerSettings} {actions : List SettingsAction}
    {s : SettingsServer} (h : System.run (SettingsServer.step rules) { settings } actions = some s) :
    managedSettingsEntriesFromValues rules s.settings s.rows =
        .ok (ManagedKey.all.map (pageEntry s.settings s.history)) ∧
      (∀ key, (s.settings.mutationsEnabled = true ∧ (pageEntry s.settings s.history key).editable = true) ↔
        ∃ rawValue request, s.submit rules (settingRequest key rawValue) = .ok request) ∧
      ∀ request ∈ s.requests, ∀ current now, (s.commit rules request current now).responses =
        s.responses ++ [.ok (ManagedKey.all.map (pageEntry s.settings (s.history ++ request.changes)))] := by
  have hsound := SettingsServer.sound_run h
  refine ⟨hsound.rows.entries,editable_iff hsound,fun request hrequest current now => ?_⟩
  have hrows : RowsFor rules (s.history ++ request.changes)
      (applyManagedSettingUpdates current now s.rows request.updates) :=
    hsound.rows.updates (hsound.requests request hrequest)
  rw [SettingsServer.commit_eq hrows.entries]

theorem settings_page_pins : ∃ s,
    System.run (SettingsServer.step openRules) { settings := {} } pinsActions = some s ∧
      managedSettingsEntriesFromValues openRules s.settings s.rows =
        .ok (ManagedKey.all.map (pageEntry s.settings s.history)) ∧
      shownValue s.settings s.history .digestPinUpdates = "true".toList := by
  have hrun : (System.run (SettingsServer.step openRules) { settings := {} } pinsActions).map
      (fun s => shownValue s.settings s.history .digestPinUpdates) = some "true".toList := by decide +kernel
  obtain ⟨s,hs,hshown⟩ := Option.map_eq_some_iff.mp hrun
  exact ⟨s,hs,(settings_page hs).1,hshown⟩

end Wudup

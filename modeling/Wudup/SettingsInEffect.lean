import Wudup.SettingValues

/-! What is in effect after any run of changes: the values of the environment, or those that were set last. -/
namespace Wudup
open Library

theorem ManagedKey.mem_all (key : ManagedKey) : key ∈ ManagedKey.all := by
  cases key <;> decide

theorem ManagedKey.dbKey_injective : Function.Injective ManagedKey.dbKey := by
  have hn : (ManagedKey.all.map ManagedKey.dbKey).Nodup := by decide +kernel
  exact fun key other h => List.inj_on_of_nodup_map hn (mem_all key) (mem_all other) h

theorem ManagedKey.name_injective : Function.Injective ManagedKey.name := by
  have hn : (ManagedKey.all.map ManagedKey.name).Nodup := by decide +kernel
  exact fun key other h => List.inj_on_of_nodup_map hn (mem_all key) (mem_all other) h

theorem ManagedKey.find?_name (key : ManagedKey) : ManagedKey.all.find? (·.name = key.name) = some key := by
  cases h : ManagedKey.all.find? (·.name = key.name) with
  | none => exact absurd (decide_eq_true rfl) (List.find?_eq_none.mp h key (mem_all key))
  | some other =>
    have hname : other.name = key.name := by simpa using List.find?_some h
    rw [name_injective hname]

/-! The last change of a setting -/

/-- The text that a setting was given last. -/
def chosen (key : ManagedKey) (history : List (ManagedKey × Str)) : Option Str :=
  (history.reverse.lookup key).map strip

theorem chosen_nil (key : ManagedKey) : chosen key [] = none := rfl

theorem chosen_concat (key changed : ManagedKey) (rawValue : Str) (history : List (ManagedKey × Str)) :
    chosen key (history ++ [(changed,rawValue)]) =
      if key = changed then some (strip rawValue) else chosen key history := by
  rw [chosen,chosen,List.reverse_append,List.reverse_singleton,List.singleton_append,List.lookup_cons]
  by_cases h : key = changed
  · rw [if_pos h,h,beq_self_eq_true]
    rfl
  · rw [if_neg h,beq_false_of_ne h]

/-! What is stored -/

section
variable {rules : RedactionRules} {settings : ServerSettings} {key : ManagedKey} {rawValue value text : Str}

/-- What the row of a setting holds when the text was the last that the setting was given. -/
def RowFor (rules : RedactionRules) (key : ManagedKey) (text row : Option Str) : Prop :=
  match key with
  | .composeIgnorePaths => ∃ paths, parseComposeIgnorePaths ManagedKey.composeIgnorePaths.name text = .ok paths ∧
      row = text.map fun _ => formatComposeIgnorePaths paths
  | .cooldownSeconds => ∃ n,
      parsePositiveIntSetting ManagedKey.cooldownSeconds.name (text.getD []) defaultCooldownSeconds = .ok n ∧
        row = text.map fun _ => Nat.toDigits 10 n
  | .discordWebhook => row = text.filter (· ≠ []) ∧ ∀ value ∈ row, validatedDiscordWebhook rules value = .ok value
  | .onboardingChecklist => text.all (· ∈ ManagedKey.onboardingChecklist.allowedValues) = true ∧
      (row.isSome = true ↔ text = some "dismissed".toList) ∧ row ≠ some []
  | key => row = text ∧ text.all (· ∈ key.allowedValues) = true

theorem ok_of_configErrorTo422 {α : Type} {result : Except SettingsFailure α} {value : α}
    (h : configErrorTo422 result = .ok value) : result = .ok value := by
  rw [configErrorTo422.eq_def] at h
  split at h
  · cases h
  · exact h

theorem validatedChoiceSettingUpdate_ok (h : validatedChoiceSettingUpdate key rawValue = .ok value) :
    value = strip rawValue ∧ strip rawValue ∈ key.allowedValues := by
  rw [validatedChoiceSettingUpdate] at h
  split at h
  · cases h
    exact ⟨rfl,‹_›⟩
  · cases h

/-- What an update leaves in its row. -/
def storedValue (current : Str) (now : Timestamp) (update : ManagedSettingUpdate) : Option Str :=
  match update.key with
  | .onboardingChecklist =>
    if update.value = "dismissed".toList then some (if current = [] then now.1 else current) else none
  | .discordWebhook => if update.value = [] then none else some update.value
  | _ => some update.value

theorem applyManagedSettingUpdate_eq (current : Str) (now : Timestamp) (rows : StoredSettings)
    (update : ManagedSettingUpdate) : applyManagedSettingUpdate current now rows update =
      Function.update rows update.key.dbKey (storedValue current now update) := by
  obtain ⟨key,rawValue,value⟩ := update
  cases key with
  | onboardingChecklist =>
    change applyOnboardingChecklistUpdate current now rows value =
      Function.update rows _ (if value = "dismissed".toList then _ else _)
    rw [applyOnboardingChecklistUpdate]
    split <;> rfl
  | _ => rfl

/-- A checked update leaves in its row what the text that it was given wants. -/
theorem rowFor_update (current : Str) (now : Timestamp)
    (h : validatedManagedSettingUpdate rules settings key rawValue = .ok value) :
    RowFor rules key (some (strip rawValue)) (storedValue current now ⟨key,rawValue,value⟩) := by
  cases key with
  | composeIgnorePaths =>
    change validatedComposeIgnorePathsUpdate settings rawValue = .ok value at h
    rw [validatedComposeIgnorePathsUpdate] at h
    split at h
    · cases h
    · have hok := ok_of_configErrorTo422 h
      cases hparse : parseComposeIgnorePaths ManagedKey.composeIgnorePaths.name (some (strip rawValue)) with
      | error failure =>
        rw [hparse] at hok
        cases hok
      | ok paths =>
        rw [hparse] at hok
        cases hok
        exact ⟨paths,hparse,rfl⟩
  | cooldownSeconds =>
    obtain ⟨_,-,h⟩ := bind_eq_ok.mp h
    have hok := ok_of_configErrorTo422 h
    cases hparse : parsePositiveIntSetting ManagedKey.cooldownSeconds.name rawValue defaultCooldownSeconds with
    | error failure =>
      rw [hparse] at hok
      cases hok
    | ok n =>
      rw [hparse] at hok
      cases hok
      have hstrip : strip (strip rawValue) = strip rawValue := stripChars_stripChars _ _
      refine ⟨n,?_,rfl⟩
      rw [Option.getD_some,parsePositiveIntSetting,hstrip]
      exact hparse
  | discordWebhook =>
    obtain ⟨_,-,h⟩ := bind_eq_ok.mp h
    change validatedDiscordWebhookUpdate rules settings rawValue = .ok value at h
    have hrow : storedValue current now ⟨.discordWebhook,rawValue,value⟩ =
        if value = [] then none else some value := rfl
    rw [validatedDiscordWebhookUpdate] at h
    split at h
    · cases h
    · split at h
      · rename_i hempty
        cases h
        rw [hrow,if_pos rfl,hempty]
        exact ⟨rfl,fun _ hmem => by cases hmem⟩
      · rename_i hne
        obtain ⟨hvalue,hagain⟩ := validatedDiscordWebhook_ok (ok_of_configErrorTo422 h)
        have hstrip : strip (strip rawValue) = strip rawValue := stripChars_stripChars _ _
        rw [hstrip] at hvalue
        subst hvalue
        rw [hrow,if_neg hne]
        refine ⟨by rw [Option.filter_some,if_pos (decide_eq_true hne)],fun other hmem => ?_⟩
        cases hmem
        exact hagain
  | onboardingChecklist =>
    obtain ⟨_,-,h⟩ := bind_eq_ok.mp h
    obtain ⟨rfl,hallowed⟩ := validatedChoiceSettingUpdate_ok h
    have hrow : storedValue current now ⟨.onboardingChecklist,rawValue,strip rawValue⟩ =
        if strip rawValue = "dismissed".toList then some (if current = [] then now.1 else current) else none := rfl
    refine ⟨decide_eq_true hallowed,?_⟩
    rw [hrow]
    by_cases hdismissed : strip rawValue = "dismissed".toList
    · rw [if_pos hdismissed,hdismissed]
      refine ⟨⟨fun _ => rfl,fun _ => rfl⟩,fun hempty => ?_⟩
      by_cases hcurrent : current = []
      · rw [if_pos hcurrent] at hempty
        exact now.2 (Option.some.inj hempty)
      · rw [if_neg hcurrent] at hempty
        exact hcurrent (Option.some.inj hempty)
    · rw [if_neg hdismissed]
      exact ⟨⟨fun h => (by cases h),fun h => absurd (Option.some.inj h) hdismissed⟩,fun h => by cases h⟩
  | _ =>
    obtain ⟨_,-,h⟩ := bind_eq_ok.mp h
    obtain ⟨rfl,hallowed⟩ := validatedChoiceSettingUpdate_ok h
    exact ⟨rfl,decide_eq_true hallowed⟩

/-- The row of every setting holds what the last change of the setting wants. -/
def RowsFor (rules : RedactionRules) (history : List (ManagedKey × Str)) (rows : StoredSettings) : Prop :=
  ∀ key, RowFor rules key (chosen key history) (rows key.dbKey)

theorem rowsFor_nil : RowsFor rules [] fun _ => none := by
  intro key
  rw [chosen_nil]
  cases key with
  | composeIgnorePaths => exact ⟨[],rfl,rfl⟩
  | cooldownSeconds => exact ⟨defaultCooldownSeconds,rfl,rfl⟩
  | discordWebhook => exact ⟨rfl,fun _ h => by cases h⟩
  | onboardingChecklist => exact ⟨rfl,⟨fun h => (by cases h),fun h => by cases h⟩,fun h => by cases h⟩
  | _ => exact ⟨rfl,rfl⟩

/-- A change of one row that its text wants leaves the others as they were. -/
theorem RowsFor.changed {history : List (ManagedKey × Str)} {rows : StoredSettings} {row : Option Str}
    (h : RowsFor rules history rows) (hrow : RowFor rules key (some (strip rawValue)) row) :
    RowsFor rules (history ++ [(key,rawValue)]) (Function.update rows key.dbKey row) := by
  intro other
  rw [chosen_concat]
  by_cases hkey : other = key
  · subst hkey
    rw [if_pos rfl,Function.update_self]
    exact hrow
  · rw [if_neg hkey,Function.update_of_ne fun heq => hkey (ManagedKey.dbKey_injective heq)]
    exact h other

theorem RowsFor.updates {updates : List ManagedSettingUpdate} {history : List (ManagedKey × Str)}
    {rows : StoredSettings} {current : Str} {now : Timestamp} (h : RowsFor rules history rows)
    (hvalid : ∀ update ∈ updates,
      validatedManagedSettingUpdate rules settings update.key update.rawValue = .ok update.value) :
    RowsFor rules (history ++ updates.map fun update => (update.key,update.rawValue))
      (applyManagedSettingUpdates current now rows updates) := by
  induction updates generalizing history rows with
  | nil => simpa [applyManagedSettingUpdates] using h
  | cons update updates ih =>
    have hfirst := h.changed (rowFor_update current now (hvalid update (by simp)))
    have hrest := ih hfirst fun other hother => hvalid other (List.mem_cons_of_mem _ hother)
    rw [List.append_assoc,List.singleton_append] at hrest
    rw [applyManagedSettingUpdates,List.foldl_cons,applyManagedSettingUpdate_eq]
    exact hrest

end

/-! Runs -/

theorem validatedEntry_ok {rules : RedactionRules} {settings : ServerSettings} {entry : Str × Str}
    {update : ManagedSettingUpdate} (h : validatedEntry rules settings entry = .ok update) :
    update.key.name = entry.1 ∧ update.rawValue = entry.2 ∧
      validatedManagedSettingUpdate rules settings update.key update.rawValue = .ok update.value := by
  rw [validatedEntry.eq_def] at h
  split at h
  · cases h
  · rename_i key hfind
    cases hvalue : validatedManagedSettingUpdate rules settings key entry.2 with
    | error failure =>
      rw [hvalue] at h
      cases h
    | ok value =>
      rw [hvalue] at h
      cases h
      exact ⟨by simpa using List.find?_some hfind,rfl,hvalue⟩

theorem valid_of_validatedManagedSettingUpdates {rules : RedactionRules} {settings : ServerSettings}
    {payload : ManagedSettingsUpdateRequest} {updates : List ManagedSettingUpdate}
    (h : validatedManagedSettingUpdates rules settings payload = .ok updates) {update : ManagedSettingUpdate}
    (hupdate : update ∈ updates) :
    validatedManagedSettingUpdate rules settings update.key update.rawValue = .ok update.value := by
  rw [validatedManagedSettingUpdates] at h
  split at h
  · cases h
  · have hmem : (.ok update : Except SettingsFailure ManagedSettingUpdate) ∈
        payload.values.map (validatedEntry rules settings) := mapM_eq_ok.mp h ▸ List.mem_map_of_mem hupdate
    obtain ⟨entry,-,hok⟩ := List.mem_map.mp hmem
    exact (validatedEntry_ok hok).2.2

namespace SettingsServer
variable {rules : RedactionRules} {s t : SettingsServer} {action : SettingsAction}

/-- The rows are as their last changes want them, and the requests under way are checked. -/
structure Sound (rules : RedactionRules) (s : SettingsServer) : Prop where
  rows : RowsFor rules s.history s.rows
  requests : ∀ request ∈ s.requests, ∀ update ∈ request.updates,
    validatedManagedSettingUpdate rules s.settings update.key update.rawValue = .ok update.value

theorem sound_start (settings : ServerSettings) : Sound rules { settings } :=
  ⟨rowsFor_nil,fun _ h => by cases h⟩

theorem submit_ok {payload : ManagedSettingsUpdateRequest} {request : SettingsRequest}
    (h : s.submit rules payload = .ok request) : s.settings.mutationsEnabled = true ∧
      validatedManagedSettingUpdates rules s.settings payload = .ok request.updates ∧
      managedSettingsEntriesFromValues rules s.settings s.rows = .ok request.before := by
  rw [submit] at h
  split at h
  · cases h
  · rename_i henabled
    obtain ⟨updates,hupdates,h⟩ := bind_eq_ok.mp h
    obtain ⟨before,hbefore,h⟩ := bind_eq_ok.mp h
    cases h
    exact ⟨Bool.eq_true_of_not_eq_false henabled,hupdates,hbefore⟩

theorem Sound.commit {request : SettingsRequest} {current : Str} {now : Timestamp} (h : s.Sound rules)
    (hvalid : ∀ update ∈ request.updates,
      validatedManagedSettingUpdate rules s.settings update.key update.rawValue = .ok update.value) :
    (s.commit rules request current now).Sound rules := by
  rw [SettingsServer.commit.eq_def]
  dsimp only
  split
  · exact ⟨h.rows,h.requests⟩
  · exact ⟨h.rows.updates hvalid,h.requests⟩

theorem Sound.step (h : s.Sound rules) (hstep : step rules s action = some t) : t.Sound rules := by
  cases action with
  | submit payload =>
    simp only [SettingsServer.step] at hstep
    split at hstep
    · cases hstep
      exact ⟨h.rows,h.requests⟩
    · rename_i request hsubmit
      cases hstep
      refine ⟨h.rows,fun other hother update hupdate => ?_⟩
      rcases List.mem_append.mp hother with hother | hother
      · exact h.requests other hother update hupdate
      · rw [List.mem_singleton.mp hother] at hupdate
        exact valid_of_validatedManagedSettingUpdates (submit_ok hsubmit).2.1 hupdate
  | commit index current now =>
    obtain ⟨request,hrequest,rfl⟩ := Option.map_eq_some_iff.mp hstep
    have hrest : Sound rules { s with requests := s.requests.eraseIdx index } :=
      ⟨h.rows,fun other hother => h.requests other (List.mem_of_mem_eraseIdx hother)⟩
    exact hrest.commit (h.requests request (List.mem_of_getElem? hrequest))
  | dismiss now =>
    cases hstep
    refine ⟨h.rows.changed ?_,h.requests⟩
    exact ⟨by decide,⟨fun _ => by decide,fun _ => rfl⟩,fun hempty => now.2 (Option.some.inj hempty)⟩
  | restart env mutationsEnabled =>
    obtain ⟨settings,-,rfl⟩ := Option.map_eq_some_iff.mp hstep
    exact ⟨h.rows,fun _ hnone => by cases hnone⟩

theorem sound_run {settings : ServerSettings} {actions : List SettingsAction}
    (h : System.run (SettingsServer.step rules) { settings } actions = some s) : s.Sound rules :=
  System.run_keeps (fun _ _ _ => Sound.step) (sound_start settings) h

end SettingsServer

/-! What is read -/

section
variable {rules : RedactionRules} {history : List (ManagedKey × Str)} {rows : StoredSettings}

/-- A switch is stored as the text that it was given. -/
theorem RowsFor.switch (h : RowsFor rules history rows) {key : ManagedKey}
    (hkey : key ∈ [.sidebarBadges,.digestPinUpdates,.retagDigestPins,.releaseNotesEnabled]) (default : Bool) :
    rows key.dbKey = chosen key history ∧
      parseBoolEnv key.name (some (rows.webSetting key)) default =
        .ok ((chosen key history).elim default fun text => text = "true".toList) := by
  have hrow : rows key.dbKey = chosen key history ∧
      (chosen key history).all (· ∈ ["false".toList,"true".toList]) = true := by
    have hall := h key
    simp only [List.mem_cons,List.not_mem_nil,or_false] at hkey
    rcases hkey with rfl | rfl | rfl | rfl <;> exact hall
  refine ⟨hrow.1,?_⟩
  rw [StoredSettings.webSetting,hrow.1]
  cases hchosen : chosen key history with
  | none => exact parseBoolEnv_nil _ _
  | some text =>
    rw [hchosen] at hrow
    have htext : text = formatBool false ∨ text = formatBool true := by
      have hmem := of_decide_eq_true hrow.2
      simpa [formatBool] using hmem
    rcases htext with rfl | rfl
    · exact parseBoolEnv_formatBool _ false _
    · exact parseBoolEnv_formatBool _ true _

/-- A choice is stored as the text that it was given. -/
theorem RowsFor.choice (h : RowsFor rules history rows) {key : ManagedKey}
    (hkey : key ∈ [.themePreference,.deliveryMode,.mode,.resendPolicy,.verbosity]) :
    rows key.dbKey = chosen key history ∧ (chosen key history).all (· ∈ key.allowedValues) = true := by
  have hall := h key
  simp only [List.mem_cons,List.not_mem_nil,or_false] at hkey
  rcases hkey with rfl | rfl | rfl | rfl | rfl <;> exact hall

theorem RowsFor.choiceValue (h : RowsFor rules history rows) {key : ManagedKey} {default : Str}
    (hkey : key ∈ [.themePreference,.deliveryMode,.mode,.resendPolicy,.verbosity])
    (hdefault : default ∈ key.allowedValues) :
    managedChoiceSettingValue rows key default = .ok ((chosen key history).getD default) := by
  obtain ⟨hrow,hallowed⟩ := h.choice hkey
  rw [managedChoiceSettingValue,hrow,if_pos]
  cases hchosen : chosen key history with
  | none => exact hdefault
  | some text =>
    rw [hchosen] at hallowed
    exact of_decide_eq_true hallowed

theorem RowsFor.composeIgnorePaths (h : RowsFor rules history rows) : ∃ paths,
    parseComposeIgnorePaths ManagedKey.composeIgnorePaths.name (chosen .composeIgnorePaths history) = .ok paths ∧
      parseComposeIgnorePaths ManagedKey.composeIgnorePaths.name (rows ManagedKey.composeIgnorePaths.dbKey) =
        .ok paths ∧
      (rows ManagedKey.composeIgnorePaths.dbKey).isSome = (chosen .composeIgnorePaths history).isSome := by
  obtain ⟨paths,hparse,hrow⟩ := h .composeIgnorePaths
  refine ⟨paths,hparse,?_,by rw [hrow,Option.isSome_map]⟩
  rw [hrow]
  cases hchosen : chosen .composeIgnorePaths history with
  | none =>
    rw [hchosen] at hparse
    exact hparse
  | some text => exact parse_format_of_parse hparse

theorem RowsFor.cooldownSeconds (h : RowsFor rules history rows) : ∃ n, 0 < n ∧
    parsePositiveIntSetting ManagedKey.cooldownSeconds.name ((chosen .cooldownSeconds history).getD [])
      defaultCooldownSeconds = .ok n ∧
    parsePositiveIntSetting ManagedKey.cooldownSeconds.name (rows.webSetting .cooldownSeconds)
      defaultCooldownSeconds = .ok n ∧
    (rows ManagedKey.cooldownSeconds.dbKey).isSome = (chosen .cooldownSeconds history).isSome := by
  obtain ⟨n,hparse,hrow⟩ := h .cooldownSeconds
  obtain ⟨hpos,hagain⟩ := parsePositiveIntSetting_toDigits (by decide) (by decide) hparse
  refine ⟨n,hpos,hparse,?_,by rw [hrow,Option.isSome_map]⟩
  rw [StoredSettings.webSetting,hrow]
  cases hchosen : chosen .cooldownSeconds history with
  | none =>
    rw [hchosen] at hparse
    exact hparse
  | some text => exact hagain

theorem RowsFor.discordWebhook (h : RowsFor rules history rows) :
    rows.webSetting .discordWebhook = (chosen .discordWebhook history).getD [] ∧
      (rows.webSetting .discordWebhook ≠ [] →
        validatedDiscordWebhook rules (rows.webSetting .discordWebhook) = .ok (rows.webSetting .discordWebhook)) := by
  obtain ⟨hrow,hvalid⟩ := h .discordWebhook
  refine ⟨?_,fun hne => ?_⟩
  · rw [StoredSettings.webSetting,hrow]
    cases chosen .discordWebhook history with
    | none => rfl
    | some text =>
      rw [Option.filter_some]
      by_cases htext : text = []
      · rw [if_neg (by simp [htext]),htext]
        rfl
      · rw [if_pos (by simp [htext])]
  · rw [StoredSettings.webSetting] at hne ⊢
    cases hstored : rows ManagedKey.discordWebhook.dbKey with
    | none =>
      rw [hstored] at hne
      exact absurd rfl hne
    | some value => exact hvalid value hstored

end

/-- Every reader gives the value of the environment, or that of the last change, or the default. -/
structure InEffect (rules : RedactionRules) (s : SettingsServer) : Prop where
  composeIgnorePaths : ∃ paths, effectiveComposeIgnorePaths s.settings s.rows = .ok paths ∧
    if s.settings.envConfigured composeIgnorePathsEnv = true then paths = s.settings.composeIgnorePaths
    else
      parseComposeIgnorePaths ManagedKey.composeIgnorePaths.name (chosen .composeIgnorePaths s.history) = .ok paths
  digestPinUpdates : effectiveDigestPinUpdates s.settings s.rows =
    .ok (if s.settings.envConfigured digestPinUpdatesEnv = true then s.settings.digestPinUpdates
      else chosen .digestPinUpdates s.history = some "true".toList)
  retagDigestPins : effectiveRetagDigestPins s.rows = .ok (chosen .retagDigestPins s.history = some "true".toList)
  releaseNotesEnabled : effectiveReleaseNotesEnabledState s.settings s.rows =
    .ok (if s.settings.envConfigured releaseNotesEnabledEnvName = true then
        (s.settings.releaseNotesEnabledEnv.getD false,true)
      else (decide (chosen .releaseNotesEnabled s.history = some "true".toList),
        (chosen .releaseNotesEnabled s.history).isSome))
  releaseNotifications : ∃ cooldownSeconds, 0 < cooldownSeconds ∧
    parsePositiveIntSetting ManagedKey.cooldownSeconds.name ((chosen .cooldownSeconds s.history).getD [])
      defaultCooldownSeconds = .ok cooldownSeconds ∧
    releaseNotificationConfigFromValues s.rows = .ok
      { deliveryMode := (chosen .deliveryMode s.history).getD "on_detection".toList
        mode := (chosen .mode s.history).getD "digest".toList
        resendPolicy := (chosen .resendPolicy s.history).getD "remote_change".toList
        cooldownSeconds
        verbosity := (chosen .verbosity s.history).getD "summary".toList }
  discordWebhook : effectiveReleaseNotificationWebhook rules s.settings s.rows =
    .ok (if s.settings.discordWebhookEnv.1 ≠ [] then s.settings.discordWebhookEnv
      else if (chosen .discordWebhook s.history).getD [] = [] then ([],[])
      else ((chosen .discordWebhook s.history).getD [],"WebUI settings".toList))

theorem elim_false_eq (text : Option Str) :
    (text.elim false fun value => decide (value = "true".toList)) = decide (text = some "true".toList) := by
  cases text <;> simp

/-- In every run of requests, dismissals and restarts, with any requests under way at a time, every setting can be
read, and the value that is read is that of the environment, or that of the last change that was made, or the
default. -/
theorem settings_in_effect {rules : RedactionRules} {settings : ServerSettings} {actions : List SettingsAction}
    {s : SettingsServer} (h : System.run (SettingsServer.step rules) { settings } actions = some s) :
    InEffect rules s := by
  have hrows := (SettingsServer.sound_run h).rows
  obtain ⟨paths,hchosen,hstored,-⟩ := hrows.composeIgnorePaths
  obtain ⟨n,hpos,hnumber,hcooldown,-⟩ := hrows.cooldownSeconds
  obtain ⟨hwebhook,hvalid⟩ := hrows.discordWebhook
  constructor
  · rw [effectiveComposeIgnorePaths]
    split
    · exact ⟨_,rfl,rfl⟩
    · exact ⟨paths,hstored,hchosen⟩
  · rw [effectiveDigestPinUpdates]
    split
    · rfl
    · rw [(hrows.switch (by simp) false).2,elim_false_eq]
  · rw [effectiveRetagDigestPins,(hrows.switch (by simp) false).2,elim_false_eq]
  · rw [effectiveReleaseNotesEnabledState]
    split
    · rfl
    · obtain ⟨hrow,hread⟩ := hrows.switch (by simp : ManagedKey.releaseNotesEnabled ∈ _) false
      rw [hread,elim_false_eq,hrow]
      rfl
  · refine ⟨n,hpos,hnumber,?_⟩
    rw [releaseNotificationConfigFromValues,hrows.choiceValue (by simp) (by decide),
      hrows.choiceValue (by simp) (by decide),hrows.choiceValue (by simp) (by decide),hcooldown,
      hrows.choiceValue (by simp) (by decide)]
    rfl
  · rw [effectiveReleaseNotificationWebhook]
    split
    · rfl
    · split
      · rw [if_pos (hwebhook ▸ ‹_›)]
      · rename_i hne
        rw [hvalid hne,← hwebhook,if_neg hne]
        rfl

def pinsActions : List SettingsAction :=
  [.submit ⟨[("digest_pin_updates".toList," true ".toList)],by decide⟩,.commit 0 [] ⟨['1'],by decide⟩]

/-- No host of a URL is refused. -/
def openRules : RedactionRules := ⟨Char.isAlphanum,fun _ => false⟩

theorem settings_in_effect_pins : ∃ s,
    System.run (SettingsServer.step openRules) { settings := {} } pinsActions = some s ∧
      effectiveDigestPinUpdates s.settings s.rows = .ok true := by
  have hrun : (System.run (SettingsServer.step openRules) { settings := {} } pinsActions).map
      (fun s => (s.settings.commandEnv,s.history)) = some ([],[(.digestPinUpdates," true ".toList)]) := by
    decide +kernel
  obtain ⟨s,hs,hends⟩ := Option.map_eq_some_iff.mp hrun
  obtain ⟨henv,hhistory⟩ := Prod.mk.injEq _ _ _ _ ▸ hends
  refine ⟨s,hs,?_⟩
  rw [(settings_in_effect hs).digestPinUpdates,ServerSettings.envConfigured,henv,hhistory,if_neg (by decide)]
  exact congrArg Except.ok (by decide +kernel)

end Wudup

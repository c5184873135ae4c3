import Wudup.Library.History
import Wudup.ReadonlyTokens

/-! The read-only token in any order of requests, rotations and revocations. -/
namespace Wudup
open Library

/-! What a step does -/

namespace TokenState
variable {sha256 : Str → Str} {rules : LoginRules} {s t : TokenState} {action : TokenAction}

inductive Moved (sha256 : Str → Str) (rules : LoginRules) (s : TokenState) : TokenAction → TokenState → Prop
  | restart {token authToken readonlyToken mutationsEnabled proxy}
    (hconfigured : configuredReadonlyToken token authToken = .ok readonlyToken) :
    Moved sha256 rules s (.restart token authToken mutationsEnabled proxy)
      (s.restart { readonlyToken, authToken, mutationsEnabled, proxy })
  | rotate {secret createdAt} (hnone : s.settings.readonlyToken = []) (henabled : s.settings.mutationsEnabled = true) :
    Moved sha256 rules s (.rotate secret createdAt) (s.rotateStoredToken sha256 secret createdAt)
  | revoke {cli t} (hrevoked : s.revokeStoredToken cli = some t) : Moved sha256 rules s (.revoke cli) t
  | begin {i request method setupRequired authorization token} (hfree : s.calls i = none)
    (hpresented : presentedToken method setupRequired authorization = .ok token) :
    Moved sha256 rules s (.begin i request method setupRequired authorization)
      (s.begin i (requestClientAddress request s.settings.proxy) token)
  | look {i call} {now : ℕ} {readable stage} (hcall : s.calls i = some call) (hstage : call.stage = .opening)
    (hnext : stage = .reading ∨ stage = .done) :
    Moved sha256 rules s (.advance i now readable)
      (({ s with throttle := rules.pruneRows s.throttle now }.setStage i call stage).log (.looked i now))
  | stop {i call} {now : ℕ} {readable : Bool} (hcall : s.calls i = some call) :
    Moved sha256 rules s (.advance i now readable) (s.setStage i call .done)
  | read {i call} {now : ℕ} {readable expected} (hcall : s.calls i = some call) (hstage : call.stage = .reading)
    (hactive : activeTokenHash s.settings sha256 (some s.rows) = some expected) :
    Moved sha256 rules s (.advance i now readable)
      ((s.setStage i call (.comparing expected)).log (.read i expected))
  | accept {i call} {now : ℕ} {readable : Bool} (hcall : s.calls i = some call)
    (hstage : call.stage = .comparing (sha256 call.token)) (hdigest : sha256 call.token ≠ []) :
    Moved sha256 rules s (.advance i now readable)
      ((s.setStage i call .done).log (.accepted i call.clientAddress call.token))
  | guess {i call} {now : ℕ} {readable : Bool} (hcall : s.calls i = some call)
    (hunlocked : lockedOut s.throttle call.clientAddress now = false) :
    Moved sha256 rules s (.advance i now readable)
      (({ s with throttle := rules.recordLoginClientFailure s.throttle call.clientAddress now }.setStage i call
        .done).log (.guessed i call.clientAddress now))

theorem activeTokenHash_some {settings : ReadonlySettings} {rows : SettingRows} {expected : Str} {readable : Bool}
    (h : activeTokenHash settings sha256 (if readable then some rows else none) = some expected) :
    activeTokenHash settings sha256 (some rows) = some expected := by
  rw [activeTokenHash] at h ⊢
  split at h
  · rw [if_pos ‹_›,h]
  · rw [if_neg ‹_›]
    cases readable with
    | true => exact h
    | false => cases h

theorem advance_moved {i : ℕ} {call : TokenCall} {now : ℕ} {readable : Bool} (hcall : s.calls i = some call)
    (h : s.advance sha256 rules i call now readable = some t) : Moved sha256 rules s (.advance i now readable) t := by
  rw [TokenState.advance] at h
  cases hstage : call.stage with
  | opening =>
    simp only [hstage] at h
    cases h
    apply Moved.look hcall hstage
    split
    · exact .inr rfl
    · exact .inl rfl
  | reading =>
    simp only [hstage] at h
    split at h
    · cases h
      exact .stop hcall
    · rename_i hactive
      cases h
      exact .read hcall hstage (activeTokenHash_some hactive)
  | comparing expected =>
    simp only [hstage] at h
    split at h
    · cases h
      exact .stop hcall
    · rename_i hlocked
      split at h
      · rename_i heq
        obtain ⟨hne,rfl⟩ := heq
        cases h
        exact .accept hcall hstage hne
      · cases h
        exact .guess hcall (Bool.eq_false_of_not_eq_true hlocked)
  | done =>
    simp only [hstage] at h
    cases h

theorem step_moved (h : step sha256 rules s action = some t) : Moved sha256 rules s action t := by
  cases action with
  | restart token authToken mutationsEnabled proxy =>
    rw [TokenState.step] at h
    split at h
    · cases h
    · cases h
      exact .restart ‹_›
  | rotate secret createdAt =>
    rw [TokenState.step] at h
    split at h
    · rename_i hallowed
      cases h
      exact .rotate hallowed.1 hallowed.2
    · cases h
  | revoke cli =>
    rw [TokenState.step] at h
    split at h
    · exact .revoke h
    · cases h
  | begin i request method setupRequired authorization =>
    rw [TokenState.step] at h
    split at h
    · cases h
      exact .begin ‹_› ‹_›
    · cases h
  | advance i now readable =>
    obtain ⟨call,hcall,h⟩ := Option.bind_eq_some_iff.mp h
    exact advance_moved hcall h

end TokenState

/-! The token that counts -/

namespace TokenEvent

def starts : TokenEvent → Prop
  | .started _ => True
  | _ => False

def changes : TokenEvent → Prop
  | .issued _ => True
  | .revoked => True
  | _ => False

end TokenEvent

/-- The token of container config, or the one that was issued last and is not revoked. -/
def CurrentToken (history : List TokenEvent) (token : Str) : Prop :=
  ∃ settings : ReadonlySettings, Standing (·.starts) history (.started settings) ∧
    if settings.readonlyToken ≠ [] then token = settings.readonlyToken
    else Standing (·.changes) history (.issued token)

/-- A token of container config is long, and not the administrator's; tokens are issued only where config has none and
changes are enabled; a request is compared with the token that counts after it began. -/
def TokenCause (sha256 : Str → Str) (before : List TokenEvent) : TokenEvent → Prop
  | .started settings => settings.readonlyToken ≠ [] →
      webTokenRecommendedMinLength ≤ settings.readonlyToken.length ∧ settings.readonlyToken ≠ settings.authToken
  | .issued token => generatedReadonlyTokenPrefix <+: token ∧ ∃ settings : ReadonlySettings,
      Standing (·.starts) before (.started settings) ∧ settings.readonlyToken = [] ∧ settings.mutationsEnabled = true
  | .read _ expected => expected ≠ [] → ∃ token, CurrentToken before token ∧ expected = sha256 token
  | .accepted i clientAddress token => sha256 token ≠ [] ∧
      InOrder before (.began i clientAddress token) (.read i (sha256 token))
  | _ => True

def TokenStored (sha256 : Str → Str) (history : List TokenEvent) (digest : Str) : Prop :=
  digest ≠ [] → ∃ token, Standing (·.changes) history (.issued token) ∧ digest = sha256 token

def TokenCall.Sound (history : List TokenEvent) (i : ℕ) (call : TokenCall) : Prop :=
  match call.stage with
  | .comparing expected => InOrder history (.began i call.clientAddress call.token) (.read i expected)
  | .done => True
  | _ => .began i call.clientAddress call.token ∈ history

structure TokenState.Sound (sha256 : Str → Str) (s : TokenState) : Prop where
  started : Standing (·.starts) s.history (.started s.settings)
  stored : TokenStored sha256 s.history (s.rows readonlyTokenHashKey)
  calls : ∀ i call, s.calls i = some call → call.Sound s.history i
  caused : Caused (TokenCause sha256) s.history

theorem TokenStored.concat {sha256 : Str → Str} {history : List TokenEvent} {digest : Str} {event : TokenEvent}
    (h : TokenStored sha256 history digest) (hevent : ¬ event.changes) :
    TokenStored sha256 (history ++ [event]) digest := by
  intro hne
  obtain ⟨token,htoken,hdigest⟩ := h hne
  exact ⟨token,htoken.concat hevent,hdigest⟩

theorem TokenCall.Sound.concat {history : List TokenEvent} {event : TokenEvent} {i : ℕ} {call : TokenCall}
    (h : call.Sound history i) : call.Sound (history ++ [event]) i := by
  rw [TokenCall.Sound] at h ⊢
  cases hstage : call.stage with
  | opening =>
    rw [hstage] at h
    exact List.mem_append_left _ h
  | reading =>
    rw [hstage] at h
    exact List.mem_append_left _ h
  | comparing expected =>
    rw [hstage] at h
    exact InOrder.concat h
  | done => trivial

namespace TokenState
variable {sha256 : Str → Str} {rules : LoginRules} {s t : TokenState} {action : TokenAction} {event : TokenEvent}

theorem calls_setStage {i j : ℕ} {call other : TokenCall} {stage : TokenStage}
    (h : (s.setStage i call stage).calls j = some other) :
    (j = i ∧ other = { call with stage }) ∨ s.calls j = some other := by
  by_cases hj : j = i
  · subst hj
    change Function.update s.calls j _ j = _ at h
    rw [Function.update_self] at h
    exact .inl ⟨rfl,(Option.some.inj h).symm⟩
  · change Function.update s.calls i _ j = _ at h
    rw [Function.update_of_ne hj] at h
    exact .inr h

/-- An event that neither starts a process nor changes the token. -/
theorem Sound.quiet (h : s.Sound sha256) (event : TokenEvent) (hhistory : t.history = s.history ++ [event])
    (hsettings : t.settings = s.settings) (hrows : t.rows = s.rows) (hstarts : ¬ event.starts)
    (hchanges : ¬ event.changes) (hcause : TokenCause sha256 s.history event)
    (hcalls : ∀ i call, t.calls i = some call → call.Sound t.history i ∨ s.calls i = some call) : t.Sound sha256 := by
  constructor
  · rw [hhistory,hsettings]
    exact h.started.concat hstarts
  · rw [hhistory,hrows]
    exact h.stored.concat hchanges
  · intro i call hcall
    rcases hcalls i call hcall with hsound | hold
    · exact hsound
    · rw [hhistory]
      exact (h.calls i call hold).concat
  · rw [hhistory]
    exact h.caused.concat hcause

theorem configured_token {token authToken readonlyToken : Str}
    (h : configuredReadonlyToken token authToken = .ok readonlyToken) (hne : readonlyToken ≠ []) :
    webTokenRecommendedMinLength ≤ readonlyToken.length ∧ readonlyToken ≠ authToken := by
  rw [configuredReadonlyToken] at h
  split at h
  · cases h
    exact absurd rfl hne
  · split at h
    · cases h
    · rename_i hlength
      split at h
      · cases h
      · rename_i hauth
        cases h
        refine ⟨Nat.le_of_not_lt hlength,fun heq => hauth ⟨?_,heq⟩⟩
        rw [← heq]
        exact hne

/-- What a request is compared with is the digest of the token that counts. -/
theorem Sound.current (h : s.Sound sha256) {expected : Str}
    (hactive : activeTokenHash s.settings sha256 (some s.rows) = some expected) (hne : expected ≠ []) :
    ∃ token, CurrentToken s.history token ∧ expected = sha256 token := by
  rw [activeTokenHash] at hactive
  split at hactive
  · rename_i hconfigured
    cases hactive
    refine ⟨s.settings.readonlyToken,⟨s.settings,h.started,?_⟩,rfl⟩
    rw [if_pos hconfigured]
  · rename_i hconfigured
    cases hactive
    obtain ⟨token,htoken,hdigest⟩ := h.stored hne
    refine ⟨token,⟨s.settings,h.started,?_⟩,hdigest⟩
    rw [if_neg hconfigured]
    exact htoken

theorem Sound.restart (h : s.Sound sha256) {token authToken readonlyToken : Str} {mutationsEnabled : Bool}
    {proxy : ProxySettings} (hconfigured : configuredReadonlyToken token authToken = .ok readonlyToken) :
    (s.restart { readonlyToken, authToken, mutationsEnabled, proxy }).Sound sha256 where
  started := standing_concat
  stored := h.stored.concat fun hc => hc
  calls i call hcall := by
    obtain ⟨old,-,rfl⟩ := Option.map_eq_some_iff.mp hcall
    trivial
  caused := h.caused.concat (configured_token hconfigured)

theorem hash_storeToken (rows : SettingRows) (stored : StoredToken) :
    rows.storeToken stored readonlyTokenHashKey = stored.hash := by
  rw [SettingRows.storeToken,Function.update_of_ne (by decide),Function.update_of_ne (by decide),Function.update_self]

theorem hash_dropToken (rows : SettingRows) : rows.dropToken readonlyTokenHashKey = [] := by
  rw [SettingRows.dropToken,Function.update_of_ne (by decide),Function.update_of_ne (by decide),Function.update_self]

theorem Sound.rotate (h : s.Sound sha256) (hnone : s.settings.readonlyToken = [])
    (henabled : s.settings.mutationsEnabled = true) (secret createdAt : Str) :
    (s.rotateStoredToken sha256 secret createdAt).Sound sha256 where
  started := h.started.concat fun hs => hs
  stored := by
    intro hne
    refine ⟨generatedReadonlyTokenPrefix ++ secret,standing_concat,?_⟩
    exact hash_storeToken s.rows (generatedToken sha256 _ createdAt)
  calls i call hcall := (h.calls i call hcall).concat
  caused := h.caused.concat ⟨List.prefix_append _ _,s.settings,h.started,hnone,henabled⟩

theorem Sound.revoke (h : s.Sound sha256) {cli : Bool} (ht : s.revokeStoredToken cli = some t) : t.Sound sha256 := by
  rw [revokeStoredToken] at ht
  split at ht
  · cases ht
  · cases ht
    constructor
    · exact h.started.concat fun hs => hs
    · exact fun hne => absurd (hash_dropToken s.rows) hne
    · exact fun i call hcall => (h.calls i call hcall).concat
    · exact h.caused.concat trivial

theorem Sound.stop (h : s.Sound sha256) {i : ℕ} {call : TokenCall} : (s.setStage i call .done).Sound sha256 where
  started := h.started
  stored := h.stored
  calls j other hother := by
    rcases calls_setStage hother with ⟨rfl,rfl⟩ | hold
    · trivial
    · exact h.calls j other hold
  caused := h.caused

theorem sound_step (h : s.Sound sha256) (hs : step sha256 rules s action = some t) : t.Sound sha256 := by
  cases step_moved hs with
  | restart hconfigured => exact h.restart hconfigured
  | rotate hnone henabled => exact h.rotate hnone henabled _ _
  | revoke hrevoked => exact h.revoke hrevoked
  | stop hcall => exact h.stop
  | @begin i request _ _ _ token hfree _ =>
    refine h.quiet (.began i _ token) rfl rfl rfl (fun hs => hs) (fun hc => hc) trivial fun j other hother => ?_
    by_cases hj : j = i
    · subst hj
      change Function.update s.calls j _ j = _ at hother
      rw [Function.update_self] at hother
      cases hother
      exact .inl (List.mem_append_right _ List.mem_cons_self)
    · change Function.update s.calls i _ j = _ at hother
      rw [Function.update_of_ne hj] at hother
      exact .inr hother
  | @look i call now _ stage hcall hstage hnext =>
    refine h.quiet (.looked i now) rfl rfl rfl (fun hs => hs) (fun hc => hc) trivial fun j other hother => ?_
    rcases calls_setStage hother with ⟨rfl,rfl⟩ | hold
    · have hbegan := h.calls j call hcall
      rw [TokenCall.Sound,hstage] at hbegan
      rcases hnext with rfl | rfl
      · exact .inl (List.mem_append_left _ hbegan)
      · exact .inl trivial
    · exact .inr hold
  | @read i call _ _ expected hcall hstage hactive =>
    refine h.quiet (.read i expected) rfl rfl rfl (fun hs => hs) (fun hc => hc) (h.current hactive)
      fun j other hother => ?_
    rcases calls_setStage hother with ⟨rfl,rfl⟩ | hold
    · have hbegan := h.calls j call hcall
      rw [TokenCall.Sound,hstage] at hbegan
      exact .inl (inOrder_concat hbegan)
    · exact .inr hold
  | @accept i call _ _ hcall hstage hdigest =>
    have hcompared := h.calls i call hcall
    rw [TokenCall.Sound,hstage] at hcompared
    refine h.quiet (.accepted i _ _) rfl rfl rfl (fun hs => hs) (fun hc => hc) ⟨hdigest,hcompared⟩
      fun j other hother => ?_
    rcases calls_setStage hother with ⟨rfl,rfl⟩ | hold
    · exact .inl trivial
    · exact .inr hold
  | @guess i call now _ hcall hunlocked =>
    refine h.quiet (.guessed i _ now) rfl rfl rfl (fun hs => hs) (fun hc => hc) trivial fun j other hother => ?_
    rcases calls_setStage hother with ⟨rfl,rfl⟩ | hold
    · exact .inl trivial
    · exact .inr hold

theorem sound_start : (start {}).Sound sha256 where
  started := ⟨[],[],rfl,fun _ h => by cases h⟩
  stored hne := absurd rfl hne
  calls _ _ h := by cases h
  caused := caused_nil.concat fun h => absurd rfl h

theorem sound_run {actions : List TokenAction} (h : System.run (step sha256 rules) (start {}) actions = some s) :
    s.Sound sha256 :=
  System.run_keeps (fun _ _ _ => sound_step) sound_start h

end TokenState

/-- A request is let in only with the token that counted at a moment after the request began. -/
theorem readonly_token_current {sha256 : Str → Str} {rules : LoginRules} {actions : List TokenAction} {s : TokenState}
    (h : System.run (TokenState.step sha256 rules) (.start {}) actions = some s) {before after : List TokenEvent}
    {i : ℕ} {clientAddress token : Str} (he : s.history = before ++ .accepted i clientAddress token :: after) :
    ∃ first second third,
      before = first ++ .began i clientAddress token :: (second ++ .read i (sha256 token) :: third) ∧
      ∃ current, CurrentToken (first ++ .began i clientAddress token :: second) current ∧
        sha256 token = sha256 current := by
  have hsound := TokenState.sound_run h
  obtain ⟨hne,first,second,third,hbefore⟩ := hsound.caused before _ after he
  refine ⟨first,second,third,hbefore,?_⟩
  have hread : s.history = (first ++ .began i clientAddress token :: second) ++
      .read i (sha256 token) :: (third ++ .accepted i clientAddress token :: after) := by
    rw [he,hbefore]
    simp
  exact hsound.caused _ _ _ hread hne

def integrationRequest : Request := ⟨[],some "10.0.0.9".toList⟩

def integrationToken : Str := "wudup_ro_a".toList

def integrationDigest : Str :=
  "b692afb5700810dc7c29661b0c16973787eae8292970d33cf1e41f1dee687058".toList

/-- The digests of the two tokens that are used here. -/
def integrationSha256 (token : Str) : Str :=
  if token = integrationToken then integrationDigest
  else "f1abe1b083d12d181ae136cfc75b8d18a8ecb43ac4e9d1a36d6a9c75b6016b61".toList

def integrationActions : List TokenAction :=
  [.rotate ['a'] "2026-01-01T00:00:00".toList,
    .begin 0 integrationRequest "GET".toList false (some ("Bearer ".toList ++ integrationToken)),
    .advance 0 1 true,.advance 0 2 true,.advance 0 3 true]

def integrationHistory : List TokenEvent :=
  [.started {},.issued integrationToken,.began 0 "10.0.0.9".toList integrationToken,.looked 0 1,
    .read 0 (integrationSha256 integrationToken)]

theorem readonly_token_current_integration : ∃ first second third,
    integrationHistory = first ++ .began 0 "10.0.0.9".toList integrationToken ::
      (second ++ .read 0 (integrationSha256 integrationToken) :: third) ∧
      ∃ current, CurrentToken (first ++ .began 0 "10.0.0.9".toList integrationToken :: second) current ∧
        integrationSha256 integrationToken = integrationSha256 current := by
  have hrun : (System.run (TokenState.step integrationSha256 (loginLimits id 1)) (.start {}) integrationActions).map
      (·.history) = some (integrationHistory ++ [.accepted 0 "10.0.0.9".toList integrationToken]) := rfl
  obtain ⟨s,hs,hhistory⟩ := Option.map_eq_some_iff.mp hrun
  exact readonly_token_current hs hhistory

/-! Guesses -/

/-- The last guess of a client and how many there are since the last pause: a guess, or a request of anyone that drops
old failures, that comes the cooldown or later after the guess before it. -/
def guessStep (client : Str) (cooldown : ℤ) (streak : Option (ℤ × ℕ)) : TokenEvent → Option (ℤ × ℕ)
  | .started _ => none
  | .looked _ now => streak.filter fun (last,_) => now - last < cooldown
  | .guessed _ clientAddress now =>
    if clientAddress = client then
      match streak with
      | none => some (now,1)
      | some (last,count) => if now - last < cooldown then some (now,count + 1) else some (now,1)
    else streak
  | _ => streak

def guessStreak (client : Str) (cooldown : ℤ) (history : List TokenEvent) : Option (ℤ × ℕ) :=
  history.foldl (guessStep client cooldown) none

theorem guessStreak_concat {client : Str} {cooldown : ℤ} {history : List TokenEvent} {event : TokenEvent} :
    guessStreak client cooldown (history ++ [event]) =
      guessStep client cooldown (guessStreak client cooldown history) event := by
  rw [guessStreak,List.foldl_append]
  rfl

namespace TokenState
variable {sha256 : Str → Str} {rules : LoginRules} {s t : TokenState} {action : TokenAction}

/-- The streak of a client is within the limit, and the throttle counts it. -/
structure GuessesCounted (rules : LoginRules) (s : TokenState) : Prop where
  rows : SoundRows rules s.throttle
  counted : ∀ client last count, guessStreak client rules.cooldown s.history = some (last,count) →
    count ≤ rules.maxFailures ∧ ∃ row, Keyed.find ThrottleRow.key client s.throttle = some row ∧
      row.lastFailedAt = last ∧ count ≤ row.failures

/-- The table of clients has room for every guess that fails. -/
def GuessRoom (s : TokenState) : TokenAction → Prop
  | .advance i _ _ => ∀ call ∈ s.calls i, roomFor s.throttle call.clientAddress = true
  | _ => True

instance (s : TokenState) : DecidablePred s.GuessRoom
  | .advance i _ _ => inferInstanceAs (Decidable (∀ call ∈ s.calls i, roomFor s.throttle call.clientAddress = true))
  | .restart .. => isTrue trivial
  | .rotate .. => isTrue trivial
  | .revoke _ => isTrue trivial
  | .begin .. => isTrue trivial

/-- An event that no streak notices. -/
theorem GuessesCounted.keep (h : s.GuessesCounted rules) (event : TokenEvent) (hthrottle : t.throttle = s.throttle)
    (hhistory : t.history = s.history ++ [event])
    (hevent : ∀ client streak, guessStep client rules.cooldown streak event = streak) : t.GuessesCounted rules := by
  constructor
  · rw [hthrottle]
    exact h.rows
  · intro client last count hstreak
    rw [hhistory,guessStreak_concat,hevent] at hstreak
    rw [hthrottle]
    exact h.counted client last count hstreak

theorem GuessesCounted.look (h : s.GuessesCounted rules) {i now : ℕ}
    (hthrottle : t.throttle = rules.pruneRows s.throttle now) (hhistory : t.history = s.history ++ [.looked i now]) :
    t.GuessesCounted rules := by
  constructor
  · rw [hthrottle]
    exact h.rows.sublist pruneRows_sublist
  · intro client last count hstreak
    rw [hhistory,guessStreak_concat] at hstreak
    obtain ⟨hold,hrecent⟩ := Option.filter_eq_some_iff.mp hstreak
    obtain ⟨hcount,row,hrow,hlast,hfailures⟩ := h.counted client last count hold
    refine ⟨hcount,row,?_,hlast,hfailures⟩
    rw [hthrottle,find_pruneRows h.rows,hrow]
    simpa [Option.filter,hlast] using hrecent

/-- A client with as many failures as are allowed is locked until the cooldown is over. -/
theorem count_lt_of_unlocked {client : Str} {row : ThrottleRow Str} {now : ℤ} (h : SoundRows rules s.throttle)
    (hrow : Keyed.find ThrottleRow.key client s.throttle = some row)
    (hunlocked : lockedOut s.throttle client now = false) (hrecent : now - row.lastFailedAt < rules.cooldown) :
    row.failures < rules.maxFailures := by
  rw [lockedOut,hrow] at hunlocked
  have hopen : row.lockedUntil ≤ now := by simpa using hunlocked
  have htimed := h.timed row (Keyed.mem_of_find hrow).1
  rw [ThrottleRow.Timed] at htimed
  by_contra hmany
  rw [if_pos (Nat.le_of_not_lt hmany)] at htimed
  omega

theorem GuessesCounted.guess (h : s.GuessesCounted rules) (hmax : 0 < rules.maxFailures) {i now : ℕ} {client : Str}
    (hunlocked : lockedOut s.throttle client now = false) (hroom : roomFor s.throttle client = true)
    (hthrottle : t.throttle = rules.recordLoginClientFailure s.throttle client now)
    (hhistory : t.history = s.history ++ [.guessed i client now]) : t.GuessesCounted rules := by
  constructor
  · rw [hthrottle]
    exact sound_recordLoginClientFailure h.rows
  · intro other last count hstreak
    rw [hhistory,guessStreak_concat] at hstreak
    by_cases ho : client = other
    · subst ho
      obtain ⟨row,hrow,hnow,hfailures⟩ := find_recordLoginClientFailure rules s.throttle client now
      simp only [guessStep,if_true] at hstreak
      cases hold : guessStreak client rules.cooldown s.history with
      | none =>
        rw [hold] at hstreak
        cases hstreak
        exact ⟨hmax,row,by rw [hthrottle,hrow],hnow,by omega⟩
      | some streak =>
        obtain ⟨before,failed⟩ := streak
        obtain ⟨-,old,hfind,hbefore,hle⟩ := h.counted client before failed hold
        have holdFailures : failuresOf s.throttle client = old.failures := by
          rw [failuresOf,hfind,Option.map_some,Option.getD_some]
        simp only [hold] at hstreak
        split at hstreak
        · rename_i hrecent
          cases hstreak
          have hless := count_lt_of_unlocked h.rows hfind hunlocked (hbefore ▸ hrecent)
          exact ⟨by omega,row,by rw [hthrottle,hrow],hnow,by omega⟩
        · cases hstreak
          exact ⟨hmax,row,by rw [hthrottle,hrow],hnow,by omega⟩
    · simp only [guessStep,if_neg ho] at hstreak
      obtain ⟨hcount,row,hrow,hlast,hfailures⟩ := h.counted other last count hstreak
      obtain ⟨rest,-,hrest,hfind⟩ := find_recordLoginClientFailure_ne rules s.throttle now (Ne.symm ho)
      refine ⟨hcount,row,?_,hlast,hfailures⟩
      rw [hthrottle,hfind,hrest hroom,hrow]

theorem guessesCounted_step (hmax : 0 < rules.maxFailures) (h : s.GuessesCounted rules) (hroom : s.GuessRoom action)
    (hs : step sha256 rules s action = some t) : t.GuessesCounted rules := by
  cases step_moved hs with
  | restart hconfigured =>
    refine ⟨⟨List.nodup_nil,fun _ hr => by cases hr⟩,fun client last count hstreak => ?_⟩
    change guessStreak client rules.cooldown (s.history ++ [_]) = _ at hstreak
    rw [guessStreak_concat] at hstreak
    cases hstreak
  | rotate hnone henabled => exact h.keep (.issued _) rfl rfl fun _ _ => rfl
  | revoke hrevoked =>
    rw [revokeStoredToken] at hrevoked
    split at hrevoked
    · cases hrevoked
    · cases hrevoked
      exact h.keep .revoked rfl rfl fun _ _ => rfl
  | stop hcall => exact ⟨h.rows,h.counted⟩
  | @begin i request _ _ _ token hfree _ => exact h.keep (.began i _ token) rfl rfl fun _ _ => rfl
  | look hcall hstage hnext => exact h.look rfl rfl
  | @read i call _ _ expected hcall hstage hactive => exact h.keep (.read i expected) rfl rfl fun _ _ => rfl
  | @accept i call _ _ hcall hstage hdigest => exact h.keep (.accepted i _ _) rfl rfl fun _ _ => rfl
  | @guess i call now _ hcall hunlocked => exact h.guess hmax hunlocked (hroom call hcall) rfl rfl

theorem guessesCounted_start {settings : ReadonlySettings} : (start settings).GuessesCounted rules :=
  ⟨⟨List.nodup_nil,fun _ hr => by cases hr⟩,fun _ _ _ h => by cases h⟩

end TokenState

/-- No client guesses more than five times without a pause of a minute, however its requests interleave. -/
theorem readonly_guesses_limited {sha256 casefold : Str → Str} {ticks : ℕ} {settings : ReadonlySettings}
    {actions : List TokenAction} {s : TokenState}
    (h : System.run (TokenState.step sha256 (loginLimits casefold ticks)) (.start settings) actions = some s)
    (hroom : System.Along (TokenState.step sha256 (loginLimits casefold ticks)) TokenState.GuessRoom (.start settings)
      actions) (client : Str) (last : ℤ) (count : ℕ)
    (hstreak : guessStreak client (60 * ticks) s.history = some (last,count)) : count ≤ 5 := by
  have hcounted := System.run_invariant (I := TokenState.GuessesCounted (loginLimits casefold ticks))
    (fun _ _ _ hs hr ht => TokenState.guessesCounted_step (Nat.succ_pos 4) hs hr ht)
    TokenState.guessesCounted_start hroom h
  exact (hcounted.counted client last count hstreak).1

/-- Five guesses of an integration ten seconds apart, and a sixth one while it is locked out. -/
def integrationGuesses : List TokenAction :=
  ([0,1,2,3,4].flatMap fun i =>
    [.begin i integrationRequest "GET".toList false (some "Bearer guess".toList),.advance i (10 * i) true,
      .advance i (10 * i) true,.advance i (10 * i + 1) true]) ++
    [.begin 5 integrationRequest "GET".toList false (some "Bearer guess".toList),.advance 5 50 true]

theorem readonly_guesses_limited_integration : ∃ s count,
    System.run (TokenState.step integrationSha256 (loginLimits id 1)) (.start {}) integrationGuesses = some s ∧
      guessStreak "10.0.0.9".toList 60 s.history = some (41,count) ∧ count ≤ 5 := by
  have hrun : (System.run (TokenState.step integrationSha256 (loginLimits id 1)) (.start {}) integrationGuesses).map
      (fun s => guessStreak "10.0.0.9".toList (60 * (1 : ℕ)) s.history) = some (some (41,5)) := by decide +kernel
  obtain ⟨s,hs,hstreak⟩ := Option.map_eq_some_iff.mp hrun
  have hroom : System.Along (TokenState.step integrationSha256 (loginLimits id 1)) TokenState.GuessRoom (.start {})
      integrationGuesses := by decide +kernel
  exact ⟨s,5,hs,hstreak,readonly_guesses_limited hs hroom _ _ _ hstreak⟩

/-! What is shown and recorded of the token -/

/-- Every change was made to what the change before it left, and the last one left what is shown. -/
inductive AuditTrail : List TokenAudit → Str → Prop
  | nil : AuditTrail [] []
  | concat {audits : List TokenAudit} {shown : Str} {audit : TokenAudit} (h : AuditTrail audits shown)
    (hbefore : audit.before = shown) : AuditTrail (audits ++ [audit]) audit.after

instance : DecidablePred TokenEvent.changes
  | .issued _ => isTrue trivial
  | .revoked => isTrue trivial
  | .started _ => isFalse fun h => h
  | .began .. => isFalse fun h => h
  | .looked .. => isFalse fun h => h
  | .read .. => isFalse fun h => h
  | .accepted .. => isFalse fun h => h
  | .guessed .. => isFalse fun h => h

namespace TokenState
variable {sha256 : Str → Str} {rules : LoginRules} {s t : TokenState} {action : TokenAction}

structure Accounted (s : TokenState) : Prop where
  shown : s.rows readonlyTokenFingerprintKey = fingerprint (s.rows readonlyTokenHashKey)
  trail : AuditTrail s.audits s.storedFingerprint
  all : s.audits.length = s.history.countP (·.changes)

theorem fingerprint_storedToken {rows : SettingRows}
    (h : rows readonlyTokenFingerprintKey = fingerprint (rows readonlyTokenHashKey)) :
    ((storedToken rows).map (·.fingerprint)).getD [] = fingerprint (rows readonlyTokenHashKey) := by
  rw [storedToken]
  by_cases hnone : rows readonlyTokenHashKey = []
  · rw [if_pos hnone,hnone]
    rfl
  · rw [if_neg hnone,Option.map_some,Option.getD_some,h,ite_eq_right_iff]
    exact fun _ => rfl

theorem fingerprint_storeToken (rows : SettingRows) (stored : StoredToken) :
    rows.storeToken stored readonlyTokenFingerprintKey = stored.fingerprint := by
  rw [SettingRows.storeToken,Function.update_self]

theorem fingerprint_dropToken (rows : SettingRows) : rows.dropToken readonlyTokenFingerprintKey = [] := by
  rw [SettingRows.dropToken,Function.update_self]

/-- An event that leaves the stored token as it is. -/
theorem Accounted.keep (h : s.Accounted) (event : TokenEvent) (hrows : t.rows = s.rows) (haudits : t.audits = s.audits)
    (hhistory : t.history = s.history ++ [event]) (hevent : ¬ event.changes) : t.Accounted := by
  constructor
  · rw [hrows]
    exact h.shown
  · rw [haudits,storedFingerprint,hrows]
    exact h.trail
  · rw [haudits,hhistory,List.countP_append,List.countP_singleton,h.all]
    simp [hevent]

/-- A change of the stored token with its audit. -/
theorem Accounted.change (h : s.Accounted) (event : TokenEvent) {audit : TokenAudit}
    (hshown : t.rows readonlyTokenFingerprintKey = fingerprint (t.rows readonlyTokenHashKey))
    (haudits : t.audits = s.audits ++ [audit]) (hbefore : audit.before = s.storedFingerprint)
    (hafter : audit.after = t.rows readonlyTokenFingerprintKey) (hhistory : t.history = s.history ++ [event])
    (hevent : event.changes) : t.Accounted := by
  refine ⟨hshown,?_,?_⟩
  · have htrail : AuditTrail t.audits audit.after := by
      rw [haudits]
      exact h.trail.concat hbefore
    rwa [hafter,hshown,← fingerprint_storedToken hshown] at htrail
  · rw [haudits,hhistory,List.countP_append,List.countP_singleton,List.length_append,h.all]
    simp [hevent]

theorem accounted_step (h : s.Accounted) (hs : step sha256 rules s action = some t) : t.Accounted := by
  cases step_moved hs with
  | restart hconfigured => exact h.keep (.started _) rfl rfl rfl fun hc => hc
  | @rotate secret createdAt hnone henabled =>
    have hhash := hash_storeToken s.rows (generatedToken sha256 (generatedReadonlyTokenPrefix ++ secret) createdAt)
    have hshown := fingerprint_storeToken s.rows
      (generatedToken sha256 (generatedReadonlyTokenPrefix ++ secret) createdAt)
    refine h.change (.issued _) (hshown.trans ?_) rfl rfl hshown.symm rfl trivial
    exact congrArg fingerprint hhash.symm
  | revoke hrevoked =>
    rw [revokeStoredToken] at hrevoked
    split at hrevoked
    · cases hrevoked
    · rename_i stored hstored
      cases hrevoked
      refine h.change .revoked ?_ rfl ?_ (fingerprint_dropToken s.rows).symm rfl trivial
      · exact (fingerprint_dropToken s.rows).trans (congrArg fingerprint (hash_dropToken s.rows)).symm
      · change stored.fingerprint = ((storedToken s.rows).map _).getD []
        rw [hstored]
        rfl
  | stop hcall => exact ⟨h.shown,h.trail,h.all⟩
  | @begin i request _ _ _ token hfree _ => exact h.keep (.began i _ token) rfl rfl rfl fun hc => hc
  | @look i _ now _ _ hcall hstage hnext => exact h.keep (.looked i now) rfl rfl rfl fun hc => hc
  | @read i call _ _ expected hcall hstage hactive => exact h.keep (.read i expected) rfl rfl rfl fun hc => hc
  | @accept i call _ _ hcall hstage hdigest => exact h.keep (.accepted i _ _) rfl rfl rfl fun hc => hc
  | @guess i call now _ hcall hunlocked => exact h.keep (.guessed i _ now) rfl rfl rfl fun hc => hc

theorem accounted_start {settings : ReadonlySettings} : (start settings).Accounted := ⟨rfl,.nil,rfl⟩

def status (sha256 : Str → Str) (s : TokenState) : ReadonlyTokenStatus :=
  statusFromStored s.settings sha256 (storedToken s.rows)

theorem storedToken_isSome {rows : SettingRows} :
    (storedToken rows).isSome = true ↔ rows readonlyTokenHashKey ≠ [] := by
  rw [storedToken]
  split <;> simp_all

section
variable {settings : ReadonlySettings} {stored : Option StoredToken}

theorem source_statusFromStored : (statusFromStored settings sha256 stored).source =
    if settings.readonlyToken ≠ [] then .env else if stored.isSome then .webui else .none := by
  unfold statusFromStored
  split
  · rfl
  · cases stored with
    | none => rfl
    | some stored => rfl

theorem fingerprint_statusFromStored : (statusFromStored settings sha256 stored).fingerprint =
    if settings.readonlyToken ≠ [] then fingerprint (sha256 settings.readonlyToken)
    else (stored.map (·.fingerprint)).getD [] := by
  unfold statusFromStored
  split
  · rfl
  · cases stored with
    | none => rfl
    | some stored => rfl

theorem editable_statusFromStored : (statusFromStored settings sha256 stored).editable = true ↔
    settings.readonlyToken = [] ∧ settings.mutationsEnabled = true := by
  unfold statusFromStored
  split
  · rename_i hconfigured
    exact ⟨fun he => (by cases he),fun he => absurd he.1 hconfigured⟩
  · rename_i hconfigured
    cases stored with
    | none => exact ⟨fun he => ⟨not_not.mp hconfigured,he⟩,And.right⟩
    | some stored => exact ⟨fun he => ⟨not_not.mp hconfigured,he⟩,And.right⟩

theorem revocable_statusFromStored : (statusFromStored settings sha256 stored).revocable =
    (settings.mutationsEnabled && stored.isSome) := by
  unfold statusFromStored
  split
  · rfl
  · cases stored with
    | none => exact (Bool.and_false _).symm
    | some stored => exact (Bool.and_true _).symm

end

/-- What is shown of the token is of the token that requests are compared with. -/
theorem Accounted.status (h : s.Accounted) (digests : ∀ token, sha256 token ≠ []) :
    ∃ digest, activeTokenHash s.settings sha256 (some s.rows) = some digest ∧
      (s.status sha256).fingerprint = fingerprint digest ∧ ((s.status sha256).source = .none ↔ digest = []) := by
  have hstored := fingerprint_storedToken h.shown
  rw [TokenState.status,source_statusFromStored,fingerprint_statusFromStored,activeTokenHash,hstored]
  by_cases hconfigured : s.settings.readonlyToken ≠ []
  · refine ⟨sha256 s.settings.readonlyToken,if_pos hconfigured,if_pos hconfigured,?_⟩
    rw [if_pos hconfigured]
    exact ⟨fun he => (by cases he),fun he => absurd he (digests _)⟩
  · refine ⟨s.rows readonlyTokenHashKey,if_neg hconfigured,if_neg hconfigured,?_⟩
    rw [if_neg hconfigured,ite_eq_right_iff,storedToken_isSome]
    exact ⟨fun he => not_not.mp fun hne => (by cases he hne),fun he hne => absurd he hne⟩

/-- The WebUI offers a rotation exactly where it makes one. -/
theorem editable_iff : (s.status sha256).editable = true ↔
    ∀ secret createdAt, (step sha256 rules s (.rotate secret createdAt)).isSome = true := by
  have hrotate : ∀ secret createdAt, (step sha256 rules s (.rotate secret createdAt)).isSome = true ↔
      s.settings.readonlyToken = [] ∧ s.settings.mutationsEnabled = true := by
    intro secret createdAt
    rw [step]
    split
    · exact ⟨fun _ => ‹_›,fun _ => rfl⟩
    · exact ⟨fun he => (by cases he),fun he => absurd he ‹_›⟩
  rw [TokenState.status,editable_statusFromStored]
  exact ⟨fun he secret createdAt => (hrotate secret createdAt).mpr he,fun he => (hrotate [] []).mp (he [] [])⟩

theorem revokeStoredToken_isSome (cli : Bool) :
    (s.revokeStoredToken cli).isSome = (storedToken s.rows).isSome := by
  rw [revokeStoredToken]
  cases storedToken s.rows with
  | none => rfl
  | some stored => rfl

theorem revocable_iff : (s.status sha256).revocable = true ↔ (step sha256 rules s (.revoke false)).isSome = true := by
  rw [TokenState.status,revocable_statusFromStored,Bool.and_eq_true,step,← revokeStoredToken_isSome false]
  split
  · rename_i henabled
    exact ⟨And.right,fun he => ⟨henabled.resolve_left Bool.false_ne_true,he⟩⟩
  · rename_i hdisabled
    exact ⟨fun he => absurd (.inr he.1) hdisabled,fun he => (by cases he)⟩

end TokenState

/-- The audits account for every change of the stored token, and the WebUI shows the token that counts and offers
exactly the changes that can be made. -/
theorem readonly_token_accounted {sha256 : Str → Str} {rules : LoginRules} {actions : List TokenAction} {s : TokenState}
    (digests : ∀ token, sha256 token ≠ [])
    (h : System.run (TokenState.step sha256 rules) (.start {}) actions = some s) :
    (AuditTrail s.audits (fingerprint (s.rows readonlyTokenHashKey)) ∧
      s.audits.length = s.history.countP (·.changes)) ∧
    (∃ digest, activeTokenHash s.settings sha256 (some s.rows) = some digest ∧
      (s.status sha256).fingerprint = fingerprint digest ∧ ((s.status sha256).source = .none ↔ digest = [])) ∧
    ((s.status sha256).editable = true ↔
      ∀ secret createdAt, (TokenState.step sha256 rules s (.rotate secret createdAt)).isSome = true) ∧
    ((s.status sha256).revocable = true ↔ (TokenState.step sha256 rules s (.revoke false)).isSome = true) := by
  have haccounted : s.Accounted :=
    System.run_keeps (fun _ _ _ => TokenState.accounted_step) TokenState.accounted_start h
  have htrail := haccounted.trail
  rw [TokenState.storedFingerprint,TokenState.fingerprint_storedToken haccounted.shown] at htrail
  exact ⟨⟨htrail,haccounted.all⟩,haccounted.status digests,TokenState.editable_iff,TokenState.revocable_iff⟩

theorem readonly_token_accounted_revoked : ∃ s,
    System.run (TokenState.step integrationSha256 (loginLimits id 1)) (.start {})
      [.rotate ['a'] "2026-01-01T00:00:00".toList,.revoke true] = some s ∧
      AuditTrail s.audits (fingerprint (s.rows readonlyTokenHashKey)) ∧ s.audits.length = 2 := by
  have hrun : (System.run (TokenState.step integrationSha256 (loginLimits id 1)) (.start {})
      [.rotate ['a'] "2026-01-01T00:00:00".toList,.revoke true]).map (·.audits.length) = some 2 := by decide +kernel
  have hdigests : ∀ token, integrationSha256 token ≠ [] := by
    intro token
    rw [integrationSha256]
    split <;> decide
  obtain ⟨s,hs,hlength⟩ := Option.map_eq_some_iff.mp hrun
  exact ⟨s,hs,(readonly_token_accounted hdigests hs).1.1,hlength⟩

end Wudup

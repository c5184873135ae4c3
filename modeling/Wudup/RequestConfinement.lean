import Wudup.RegistryRequests

/-! Where a resolver sends its requests: tokens are asked for where a registry may get them, a token goes back to the
registry whose challenge obtained it, and no request connects to an address that it may not. -/
namespace Wudup
open Library

/-! What holds of every request -/

/-- A token request of an earlier answer: the origin and the challenge it was asked for, and the token it brought. -/
def Obtained (settings : RegistrySettings) (before : List SentRequest) (origin : UrlOrigin) (challenge token : Str) :
    Prop :=
  ∃ earlier ∈ before, ∃ registryUrl reply, earlier.purpose = .token registryUrl challenge ∧
    httpsOrigin settings.rules registryUrl = .ok origin ∧ earlier.result = .ok reply ∧ reply.status = 200 ∧
      settings.replyToken reply = .ok token

/-- A registry answered a request for a manifest with a challenge. -/
def Challenged (settings : RegistrySettings) (before : List SentRequest) (url challenge : Str) : Prop :=
  ∃ earlier ∈ before, ∃ reply, earlier.purpose = .manifest ∧ earlier.options.url = url ∧ earlier.result = .ok reply ∧
    reply.status = 401 ∧ settings.bodies.headerValue reply.headers "WWW-Authenticate".toList = challenge

def PublicText (rules : RegistryRules) (value : Str) : Prop :=
  ∃ address, ipAddress value = some address ∧ publicAddress rules (checkedAddress address) = true

def PrivateText (value : Str) : Prop :=
  ∃ address, ipAddress value = some address ∧ privateAddress (checkedAddress address) = true

/-- A request that may connect to a private address: to a registry other than Docker Hub, to the token endpoint of
one, or to a configured origin. -/
def PrivateAllowed (settings : RegistrySettings) (sent : SentRequest) : Prop :=
  ∃ origin, httpsOrigin settings.rules sent.options.url = .ok origin ∧
    (sent.purpose = .manifest ∧ origin.1 ∉ dockerHubRegistries ∨
      ∃ registryUrl challenge registry, sent.purpose = .token registryUrl challenge ∧
        httpsOrigin settings.rules registryUrl = .ok registry ∧
        (origin = registry ∧ registry.1 ∉ dockerHubRegistries ∨
          ∃ configured, configuredOrigins settings.rules settings.authOrigins registry = some configured ∧
            origin ∈ configured))

/-- A request that stays where it may go, given those before it. -/
structure Confined (settings : RegistrySettings) (before : List SentRequest) (sent : SentRequest) : Prop where
  /-- A token is asked for at an origin of the registry whose challenge was answered before. -/
  token : ∀ registryUrl challenge, sent.purpose = .token registryUrl challenge →
    Challenged settings before registryUrl challenge ∧
      ∃ registry origin, httpsOrigin settings.rules registryUrl = .ok registry ∧
        httpsOrigin settings.rules sent.options.url = .ok origin ∧
        TokenOrigin settings.rules settings.authOrigins registry origin
  /-- A token goes with a request to the registry origin whose challenge obtained it. -/
  bearer : ∀ value, ("Authorization".toList,value) ∈ sent.options.headers → sent.purpose = .manifest ∧
    ∃ token origin challenge, value = "Bearer ".toList ++ token ∧
      httpsOrigin settings.rules sent.options.url = .ok origin ∧
      Challenged settings before sent.options.url challenge ∧ Obtained settings before origin challenge token
  /-- Every address was right for the request, and a private one is allowed. -/
  addresses : ∀ address ∈ sent.tried,
    validateAddress settings.rules address sent.options.allowPrivate = .ok address ∧
      (PublicText settings.rules address ∨ PrivateText address ∧ PrivateAllowed settings sent)
  /-- A pinned peer answered an earlier request to the same origin, and nothing else is connected to. -/
  peer : sent.options.peer ≠ [] → (∀ address ∈ sent.tried, address = sent.options.peer) ∧
    ∃ earlier ∈ before, ∃ origin reply, httpsOrigin settings.rules earlier.options.url = .ok origin ∧
      httpsOrigin settings.rules sent.options.url = .ok origin ∧ earlier.result = .ok reply ∧
      reply.peer = sent.options.peer ∧ reply.peer ∈ earlier.tried

/-- Every request is confined, given those before it. -/
def AllConfined (settings : RegistrySettings) (requests : List SentRequest) : Prop :=
  ∀ before sent after, requests = before ++ sent :: after → Confined settings before sent

/-- The requests are confined, and every kept token was obtained for its key. -/
structure Sound (settings : RegistrySettings) (state : ResolverState) : Prop where
  confined : AllConfined settings state.sent
  tokens : ∀ entry ∈ state.tokens, Obtained settings state.sent entry.1.1 entry.1.2 entry.2

section
variable {settings : RegistrySettings} {before : List SentRequest} {state : ResolverState} {sent : SentRequest}
variable {url challenge registryUrl peer token : Str} {origin registry : UrlOrigin}

theorem Obtained.append (h : Obtained settings before origin challenge token) (more : List SentRequest) :
    Obtained settings (before ++ more) origin challenge token := by
  obtain ⟨earlier,hmem,rest⟩ := h
  exact ⟨earlier,List.mem_append_left _ hmem,rest⟩

theorem AllConfined.append (h : AllConfined settings before) (hsent : Confined settings before sent) :
    AllConfined settings (before ++ [sent]) := by
  intro front request after heq
  obtain rfl | ⟨middle,last,rfl⟩ := List.eq_nil_or_concat after
  · obtain ⟨rfl,hlast⟩ := List.append_inj' heq rfl
    cases hlast
    exact hsent
  · rw [List.concat_eq_append,← List.cons_append,← List.append_assoc] at heq
    obtain ⟨hfront,-⟩ := List.append_inj' heq rfl
    exact h front request middle hfront

theorem Sound.append (h : Sound settings state) (hsent : Confined settings state.sent sent) :
    Sound settings { state with sent := state.sent ++ [sent] } where
  confined := h.confined.append hsent
  tokens entry hmem := (h.tokens entry hmem).append [sent]

/-! Addresses -/

theorem ipAddress_of_validate {value : Str} {allowed : Bool}
    (h : validateAddress settings.rules value allowed = .ok value) :
    ∃ address, ipAddress value = some address ∧ (publicAddress settings.rules (checkedAddress address) = true ∨
      allowed = true ∧ privateAddress (checkedAddress address) = true) := by
  unfold validateAddress at h
  split at h
  · cases h
  · next address haddress =>
    refine ⟨address,haddress,?_⟩
    dsimp only at h
    split_ifs at h with hrefused
    by_cases hpublic : publicAddress settings.rules (checkedAddress address) = true
    · exact .inl hpublic
    · rw [Bool.not_eq_true] at hpublic
      simpa [hpublic] using hrefused

theorem text_of_validate {value : Str} {allowed : Bool}
    (h : validateAddress settings.rules value allowed = .ok value) :
    PublicText settings.rules value ∨ allowed = true ∧ PrivateText value := by
  obtain ⟨address,haddress,hpublic | ⟨hallowed,hprivate⟩⟩ := ipAddress_of_validate h
  · exact .inl ⟨address,haddress,hpublic⟩
  · exact .inr ⟨hallowed,address,haddress,hprivate⟩

theorem ne_nil_of_validate {value : Str} {allowed : Bool}
    (h : validateAddress settings.rules value allowed = .ok value) : value ≠ [] := by
  rintro rfl
  obtain ⟨address,haddress,-⟩ := ipAddress_of_validate h
  cases haddress

theorem validate_eq {value result : Str} {allowed : Bool}
    (h : validateAddress settings.rules value allowed = .ok result) : result = value := by
  unfold validateAddress at h
  split at h
  · cases h
  · dsimp only at h
    split_ifs at h
    cases h
    rfl

/-! One request -/

/-- What a request adds to the record. -/
structure Made (settings : RegistrySettings) (purpose : Purpose) (options : WorkerOptions) (sent : SentRequest) :
    Prop where
  same_purpose : sent.purpose = purpose
  same_options : sent.options = options
  origin : ∃ origin, httpsOrigin settings.rules options.url = .ok origin
  tried : ∀ address ∈ sent.tried, validateAddress settings.rules address options.allowPrivate = .ok address ∧
    (options.peer ≠ [] → address = options.peer)
  replied : ∀ reply, sent.result = .ok reply → reply.peer ∈ sent.tried

theorem mem_of_connectFirst {connect : Str → Connecting} {addresses : List Str} {address : Str}
    (h : address ∈ (connectFirst connect addresses).1) : address ∈ addresses := by
  induction addresses with
  | nil => cases h
  | cons first rest ih =>
    unfold connectFirst at h
    split at h
    · exact List.mem_cons.mpr (.inl (List.mem_singleton.mp h))
    · exact List.mem_cons.mpr (.inl (List.mem_singleton.mp h))
    · obtain rfl | h := List.mem_cons.mp h
      · exact List.mem_cons_self
      · exact List.mem_cons_of_mem _ (ih h)

/-- The address that is connected was tried. -/
theorem connected_mem {connect : Str → Connecting} {addresses : List Str} {address : Str}
    (h : (connectFirst connect addresses).2 = .ok address) : address ∈ (connectFirst connect addresses).1 := by
  induction addresses with
  | nil => cases h
  | cons first rest ih =>
    unfold connectFirst at h ⊢
    split at h
    · cases h
      exact List.mem_singleton_self _
    · cases h
    · exact List.mem_cons_of_mem _ (ih h)

theorem peer_of_workerReply {exchange : Exchange} {options : WorkerOptions} {reply : Reply}
    (h : workerReply exchange options peer = .ok reply) : reply.peer = peer := by
  unfold workerReply at h
  split at h
  · cases h
  · dsimp only at h
    split_ifs at h
    all_goals
      cases h
      rfl

theorem validated_of_workerAddresses {exchange : Exchange} {options : WorkerOptions} {addresses : List Str}
    (h : workerAddresses settings.rules exchange options = .ok addresses) : ∀ address ∈ addresses,
      validateAddress settings.rules address options.allowPrivate = .ok address ∧
        (options.peer ≠ [] → address = options.peer) := by
  unfold workerAddresses at h
  obtain ⟨-,-,h⟩ := bind_eq_ok.mp h
  obtain ⟨found,hfound,h⟩ := bind_eq_ok.mp h
  split_ifs at h
  intro address hmem
  have hvalid : Except.ok address ∈
      found.map fun value => validateAddress settings.rules value options.allowPrivate := by
    rw [mapM_eq_ok.mp h]
    exact List.mem_map_of_mem hmem
  obtain ⟨value,hvalue,hvalid⟩ := List.mem_map.mp hvalid
  obtain rfl := validate_eq hvalid
  refine ⟨hvalid,fun hpeer => ?_⟩
  rw [resolvedAddresses,if_pos hpeer] at hfound
  cases hfound
  exact List.mem_singleton.mp hvalue

/-- A worker tries addresses that are right for its request, and answers from one of them. -/
theorem workerRequest_spec {exchange : Exchange} {options : WorkerOptions} :
    (∀ address ∈ (workerRequest settings.rules exchange options).1,
      validateAddress settings.rules address options.allowPrivate = .ok address ∧
        (options.peer ≠ [] → address = options.peer)) ∧
    ∀ reply, (workerRequest settings.rules exchange options).2 = .ok reply →
      reply.peer ∈ (workerRequest settings.rules exchange options).1 := by
  unfold workerRequest
  cases haddresses : workerAddresses settings.rules exchange options with
  | error failure => exact ⟨by simp,by simp⟩
  | ok addresses =>
    have hvalid := validated_of_workerAddresses haddresses
    refine ⟨fun address hmem => hvalid address (mem_orderedUnique.mp (mem_of_connectFirst hmem)),?_⟩
    intro reply hreply
    obtain ⟨connected,hconnected,hreply⟩ := bind_eq_ok.mp hreply
    rw [peer_of_workerReply hreply]
    exact connected_mem hconnected

theorem ok_of_workerResult {ends : WorkerEnd} {answer : Except WorkerFailure Reply} {reply : Reply}
    (h : workerResult ends answer = .ok reply) : answer = .ok reply := by
  cases ends with
  | timedOut => cases h
  | crashed => cases h
  | unreadable => cases h
  | replied =>
    cases answer with
    | error failure => cases h
    | ok found =>
      cases h
      rfl

/-- A request is refused before it is made, or it is recorded with its result. -/
theorem requestBytes_cases (settings : RegistrySettings) (purpose : Purpose) (options : WorkerOptions)
    (state : ResolverState) :
    (∃ failure, (settings.requestBytes purpose options).exec state = (.error failure,state)) ∨
      ∃ sent, Made settings purpose options sent ∧ (settings.requestBytes purpose options).exec state =
        (sent.result,{ state with sent := state.sent ++ [sent] }) := by
  cases horigin : httpsOrigin settings.rules options.url with
  | error failure =>
    refine .inl ⟨failure,?_⟩
    rw [RegistrySettings.requestBytes,Program.exec_bind,Program.exec_ofExcept,horigin]
  | ok origin =>
    by_cases htimeout : settings.timeout.all (· ≤ 0) = true
    · refine .inl ⟨.request "Registry request failed: timeout must be positive and finite.".toList,?_⟩
      rw [RegistrySettings.requestBytes,Program.exec_bind,Program.exec_ofExcept,horigin]
      dsimp only
      rw [if_pos htimeout,Program.exec_throw]
    · let exchange := settings.exchange state.sent.length
      let worker := workerRequest settings.rules exchange options
      obtain ⟨htried,hreplied⟩ := @workerRequest_spec settings exchange options
      refine .inr ⟨⟨purpose,options,worker.1,workerResult exchange.ends worker.2⟩,
        ⟨rfl,rfl,⟨origin,horigin⟩,htried,fun reply hreply => hreplied reply (ok_of_workerResult hreply)⟩,?_⟩
      rw [RegistrySettings.requestBytes,Program.exec_bind,Program.exec_ofExcept,horigin]
      dsimp only
      rw [if_neg htimeout,Program.exec_bind,Program.exec_get]
      dsimp only
      rw [Program.exec_bind,Program.exec_modify]
      rfl

/-- What is known when a registry answered with a challenge: its peer was right for its origin. -/
structure Answered (settings : RegistrySettings) (before : List SentRequest) (url challenge peer : Str)
    (origin : UrlOrigin) (earlier : SentRequest) (reply : Reply) : Prop where
  mem : earlier ∈ before
  asks : earlier.purpose = .manifest
  asked : earlier.options.url = url
  leads : httpsOrigin settings.rules url = .ok origin
  answers : earlier.result = .ok reply
  unauthorized : reply.status = 401
  header : settings.bodies.headerValue reply.headers "WWW-Authenticate".toList = challenge
  connected : reply.peer = peer
  tried : peer ∈ earlier.tried
  valid : validateAddress settings.rules peer (!(dockerHubRegistries.contains origin.1)) = .ok peer

section
variable {earlier : SentRequest} {reply : Reply} {options : WorkerOptions} {configured : Bool}

theorem Answered.append (h : Answered settings before url challenge peer origin earlier reply)
    (more : List SentRequest) : Answered settings (before ++ more) url challenge peer origin earlier reply :=
  { h with mem := List.mem_append_left _ h.mem }

theorem Answered.challenged (h : Answered settings before url challenge peer origin earlier reply) :
    Challenged settings before url challenge :=
  ⟨earlier,h.mem,reply,h.asks,h.asked,h.answers,h.unauthorized,h.header⟩

/-- Of Docker Hub the peer is public. -/
theorem Answered.text (h : Answered settings before url challenge peer origin earlier reply) :
    PublicText settings.rules peer ∨ PrivateText peer ∧ origin.1 ∉ dockerHubRegistries := by
  obtain hpublic | ⟨hallowed,hprivate⟩ := text_of_validate h.valid
  · exact .inl hpublic
  · exact .inr ⟨hprivate,by simpa using hallowed⟩

/-- The first request for a manifest. -/
theorem confined_manifest (h : Made settings .manifest options sent) (hpeer : options.peer = [])
    (hheaders : ∀ value, ("Authorization".toList,value) ∉ options.headers)
    (horigin : httpsOrigin settings.rules options.url = .ok origin)
    (hallow : options.allowPrivate = !(dockerHubRegistries.contains origin.1)) : Confined settings before sent where
  token registryUrl challenge hpurpose := by
    rw [h.same_purpose] at hpurpose
    cases hpurpose
  bearer value hmem := by
    rw [h.same_options] at hmem
    exact absurd hmem (hheaders value)
  addresses address hmem := by
    obtain ⟨hvalid,-⟩ := h.tried address hmem
    rw [h.same_options]
    refine ⟨hvalid,?_⟩
    obtain hpublic | ⟨hallowed,hprivate⟩ := text_of_validate hvalid
    · exact .inl hpublic
    · rw [hallow] at hallowed
      refine .inr ⟨hprivate,origin,by rwa [h.same_options],.inl ⟨h.same_purpose,by simpa using hallowed⟩⟩
  peer hne := by
    rw [h.same_options] at hne
    exact absurd hpeer hne

/-- The request that is made again with a token. -/
theorem confined_again (hanswered : Answered settings before url challenge peer origin earlier reply)
    (hobtained : Obtained settings before origin challenge token) (h : Made settings .manifest options sent)
    (hurl : options.url = url) (hpeer : options.peer = peer)
    (hheaders : ∀ value, ("Authorization".toList,value) ∈ options.headers →
      ("Authorization".toList,value) = authorization token)
    (hallow : options.allowPrivate = !(dockerHubRegistries.contains origin.1)) : Confined settings before sent where
  token registryUrl challenge hpurpose := by
    rw [h.same_purpose] at hpurpose
    cases hpurpose
  bearer value hmem := by
    rw [h.same_options] at hmem ⊢
    rw [hurl]
    have hvalue := hheaders value hmem
    refine ⟨h.same_purpose,token,origin,challenge,(Prod.mk.inj hvalue).2,hanswered.leads,hanswered.challenged,
      hobtained⟩
  addresses address hmem := by
    obtain ⟨hvalid,-⟩ := h.tried address hmem
    rw [h.same_options]
    refine ⟨hvalid,?_⟩
    obtain hpublic | ⟨hallowed,hprivate⟩ := text_of_validate hvalid
    · exact .inl hpublic
    · rw [hallow] at hallowed
      refine .inr ⟨hprivate,origin,?_,.inl ⟨h.same_purpose,by simpa using hallowed⟩⟩
      rw [h.same_options,hurl]
      exact hanswered.leads
  peer hne := by
    rw [h.same_options] at hne ⊢
    rw [hurl]
    refine ⟨fun address hmem => (h.tried address hmem).2 hne,earlier,hanswered.mem,origin,reply,?_,hanswered.leads,
      hanswered.answers,by rw [hanswered.connected,hpeer],by rw [hanswered.connected]; exact hanswered.tried⟩
    rw [hanswered.asked]
    exact hanswered.leads

/-- The request for a token. -/
theorem confined_token (hanswered : Answered settings before registryUrl challenge peer registry earlier reply)
    (hurl : tokenUrl settings.rules settings.authOrigins challenge registryUrl = .ok (options.url,configured))
    (horigin : httpsOrigin settings.rules options.url = .ok origin)
    (h : Made settings (.token registryUrl challenge) options sent)
    (hpeer : options.peer = if decide (origin = registry) then peer else [])
    (hheaders : ∀ value, ("Authorization".toList,value) ∉ options.headers)
    (hallow : options.allowPrivate = (decide (origin = registry) || configured)) : Confined settings before sent where
  token registryUrl' challenge' hpurpose := by
    rw [h.same_purpose] at hpurpose
    cases hpurpose
    obtain ⟨registry',hregistry,htoken,-⟩ := tokenUrl_spec hurl horigin
    refine ⟨hanswered.challenged,registry',origin,hregistry,?_,htoken⟩
    rw [h.same_options]
    exact horigin
  bearer value hmem := by
    rw [h.same_options] at hmem
    exact absurd hmem (hheaders value)
  addresses address hmem := by
    obtain ⟨hvalid,hpinned⟩ := h.tried address hmem
    rw [h.same_options]
    refine ⟨hvalid,?_⟩
    by_cases hsame : origin = registry
    · -- The pinned peer was right for the request for the manifest.
      have hne : options.peer ≠ [] := by
        rw [hpeer,if_pos (decide_eq_true hsame)]
        exact ne_nil_of_validate hanswered.valid
      have haddress : address = peer := by
        rw [hpinned hne,hpeer,if_pos (decide_eq_true hsame)]
      subst haddress
      obtain hpublic | ⟨hprivate,hother⟩ := hanswered.text
      · exact .inl hpublic
      · refine .inr ⟨hprivate,origin,by rwa [h.same_options],.inr ⟨registryUrl,challenge,registry,h.same_purpose,
          hanswered.leads,.inl ⟨hsame,hother⟩⟩⟩
    · obtain hpublic | ⟨hallowed,hprivate⟩ := text_of_validate hvalid
      · exact .inl hpublic
      · rw [hallow,decide_eq_false hsame,Bool.false_or] at hallowed
        obtain ⟨registry',hregistry,-,hconfigured⟩ := tokenUrl_spec hurl horigin
        cases hregistry.symm.trans hanswered.leads
        refine .inr ⟨hprivate,origin,by rwa [h.same_options],.inr ⟨registryUrl,challenge,registry,h.same_purpose,
          hanswered.leads,.inr (hconfigured hallowed)⟩⟩
  peer hne := by
    rw [h.same_options] at hne ⊢
    have hsame : origin = registry := by
      by_contra hother
      rw [hpeer,decide_eq_false hother] at hne
      exact hne rfl
    refine ⟨fun address hmem => (h.tried address hmem).2 hne,earlier,hanswered.mem,origin,reply,?_,horigin,
      hanswered.answers,?_,?_⟩
    · rw [hanswered.asked,hsame]
      exact hanswered.leads
    · rw [hpeer,if_pos (decide_eq_true hsame),hanswered.connected]
    · rw [hanswered.connected]
      exact hanswered.tried

/-! The programs of the resolver -/

open Program

/-- How a request ends: it was refused, or it was made and recorded. -/
theorem requestBytes_ends (settings : RegistrySettings) (purpose : Purpose) (options : WorkerOptions)
    (state : ResolverState) : Ends (fun s => s = state) (settings.requestBytes purpose options)
      (fun reply s => ∃ sent, Made settings purpose options sent ∧ sent.result = .ok reply ∧
        s = { state with sent := state.sent ++ [sent] })
      (fun _ s => s = state ∨ ∃ sent, Made settings purpose options sent ∧
        s = { state with sent := state.sent ++ [sent] }) := by
  rintro _ rfl
  obtain ⟨failure,hexec⟩ | ⟨sent,hmade,hexec⟩ := requestBytes_cases settings purpose options ‹_›
  · rw [hexec]
    exact .inl rfl
  · rw [hexec]
    cases hresult : sent.result with
    | error failure => exact .inr ⟨sent,hmade,rfl⟩
    | ok reply => exact ⟨sent,hmade,hresult,rfl⟩

/-- A request that is confined keeps what is sound. -/
theorem requestBytes_sound {purpose : Purpose} (hsound : Sound settings state)
    (hconfined : ∀ sent, Made settings purpose options sent → Confined settings state.sent sent) :
    Ends (fun s => s = state) (settings.requestBytes purpose options)
      (fun reply s => ∃ sent, Made settings purpose options sent ∧ sent.result = .ok reply ∧
        s = { state with sent := state.sent ++ [sent] } ∧ Sound settings s)
      (fun _ s => Sound settings s) := by
  refine (requestBytes_ends settings purpose options state).mono (fun _ h => h) ?_ ?_
  · rintro reply s ⟨sent,hmade,hresult,rfl⟩
    exact ⟨sent,hmade,hresult,rfl,hsound.append (hconfined sent hmade)⟩
  · rintro failure s (rfl | ⟨sent,hmade,rfl⟩)
    · exact hsound
    · exact hsound.append (hconfined sent hmade)

theorem accept_only {accept value : Str} :
    ("Authorization".toList,value) ∉ [("Accept".toList,accept)] := by
  intro hmem
  have hname := (Prod.mk.inj (List.mem_singleton.mp hmem)).1
  exact absurd hname (by decide)

/-- Keeping a token for what it was obtained for. -/
theorem Sound.keep (h : Sound settings state) (hobtained : Obtained settings state.sent origin challenge token) :
    Sound settings { state with tokens := keepToken state.tokens (origin,challenge) token } where
  confined := h.confined
  tokens entry hmem := by
    obtain hmem | hmem := List.mem_append.mp hmem
    · split_ifs at hmem
      · cases hmem
      · exact h.tokens entry (List.mem_of_mem_filter hmem)
    · obtain rfl := List.mem_singleton.mp hmem
      exact hobtained

/-- A token that is given was obtained for the origin and the challenge. -/
theorem token_ends (hsound : Sound settings state)
    (hanswered : Answered settings state.sent registryUrl challenge peer registry earlier reply) :
    Ends (fun s => s = state) (settings.token challenge registryUrl peer)
      (fun token s => Sound settings s ∧ Obtained settings s.sent registry challenge token ∧
        ∃ more, s.sent = state.sent ++ more)
      (fun _ s => Sound settings s) := by
  have herror : ∀ s, s = state → Sound settings s := by
    rintro _ rfl
    exact hsound
  unfold RegistrySettings.token
  refine .bind (R := fun asked s => s = state ∧ tokenUrl settings.rules settings.authOrigins challenge registryUrl =
    .ok asked) (.ofExcept (fun _ h _ hs => ⟨hs,h⟩) fun _ _ => herror) fun asked => .assume fun hasked => ?_
  obtain ⟨url,configured⟩ := asked
  refine .bind (R := fun origin s => s = state ∧ httpsOrigin settings.rules registryUrl = .ok origin)
    (.ofExcept (fun _ h _ hs => ⟨hs,h⟩) fun _ _ => herror) fun origin => .assume fun horigin => ?_
  obtain rfl := Except.ok.inj (horigin.symm.trans hanswered.leads)
  refine .get_bind fun s hs => ?_
  subst hs
  cases hcached : (s.tokens.lookup (origin,challenge)).filter (· ≠ []) with
  | some cached =>
    refine .pure ?_
    rintro _ rfl
    have hkept := mem_of_lookup (Option.filter_eq_some_iff.mp hcached).1
    exact ⟨hsound,hsound.tokens _ hkept,[],(List.append_nil _).symm⟩
  | none =>
    refine .bind (R := fun asked t => t = s ∧ httpsOrigin settings.rules url = .ok asked)
      (.ofExcept (fun _ h _ hs => ⟨hs,h⟩) fun _ _ => herror) fun asked => .assume fun hurl => ?_
    refine .bind (requestBytes_sound hsound fun sent hmade => confined_token hanswered hasked hurl hmade rfl ?_ rfl) ?_
    · intro value hmem
      exact accept_only hmem
    · intro answer
      refine .ite (fun _ => .throw ?_) fun hstatus => ?_
      · rintro t ⟨sent,-,-,-,ht⟩
        exact ht
      · refine .bind (R := fun token t => (∃ sent, Made settings (.token registryUrl challenge) _ sent ∧
          sent.result = .ok answer ∧ t = { s with sent := s.sent ++ [sent] } ∧ Sound settings t) ∧
            settings.replyToken answer = .ok token) (.ofExcept (fun _ h _ hs => ⟨hs,h⟩) ?_)
            fun token => .assume fun htoken => ?_
        · rintro _ _ t ⟨sent,-,-,-,ht⟩
          exact ht
        · refine .bind (R := fun _ t => Sound settings t ∧ Obtained settings t.sent origin challenge token ∧
            ∃ more, t.sent = s.sent ++ more) (.modify ?_) fun _ => .pure fun _ h => h
          rintro t ⟨sent,hmade,hresult,rfl,ht⟩
          have hobtained : Obtained settings (s.sent ++ [sent]) origin challenge token :=
            ⟨sent,List.mem_append_right _ (List.mem_singleton_self _),registryUrl,answer,hmade.same_purpose,horigin,
              hresult,not_not.mp hstatus,htoken⟩
          exact ⟨ht.keep hobtained,hobtained,[sent],rfl⟩

/-- A request that is made again goes to the peer that answered, with the token of its challenge. -/
theorem requestAgain_ends (hsound : Sound settings state)
    (hanswered : Answered settings state.sent options.url
      (settings.bodies.headerValue reply.headers "WWW-Authenticate".toList) reply.peer origin earlier reply)
    (hheaders : ∀ value, ("Authorization".toList,value) ∉ options.headers)
    (hallow : options.allowPrivate = !(dockerHubRegistries.contains origin.1)) :
    Ends (fun s => s = state) (settings.requestAgain options reply) (fun _ s => Sound settings s)
      (fun _ s => Sound settings s) := by
  unfold RegistrySettings.requestAgain
  refine .bind (token_ends hsound hanswered) fun token => ?_
  rintro s ⟨hs,hobtained,more,hmore⟩
  have hagain : Answered settings s.sent options.url
      (settings.bodies.headerValue reply.headers "WWW-Authenticate".toList) reply.peer origin earlier reply := by
    rw [hmore]
    exact hanswered.append more
  let again : WorkerOptions :=
    { options with headers := options.headers ++ [authorization token], peer := reply.peer }
  have hauthorized : ∀ value, ("Authorization".toList,value) ∈ again.headers →
      ("Authorization".toList,value) = authorization token := by
    intro value hmem
    obtain hmem | hmem := List.mem_append.mp hmem
    · exact absurd hmem (hheaders value)
    · exact List.mem_singleton.mp hmem
  have hconfined : ∀ sent, Made settings .manifest again sent → Confined settings s.sent sent :=
    fun sent hmade => confined_again hagain hobtained hmade rfl rfl hauthorized hallow
  exact ((requestBytes_sound hs hconfined).mono (fun _ h => h) (fun _ _ ⟨_,_,_,_,h⟩ => h) fun _ _ h => h) s rfl

theorem requestAnswer_keeps (settings : RegistrySettings) (url : Str) :
    Keeps (Sound settings) (settings.requestAnswer url []) := by
  intro state hsound
  suffices hends : Ends (fun s => s = state) (settings.requestAnswer url []) (fun _ s => Sound settings s)
      (fun _ s => Sound settings s) from hends state rfl
  unfold RegistrySettings.requestAnswer
  refine .bind (R := fun origin s => s = state ∧ httpsOrigin settings.rules url = .ok origin)
    (.ofExcept (fun _ h _ hs => ⟨hs,h⟩) ?_) fun origin => .assume fun horigin => ?_
  · rintro _ _ s rfl
    exact hsound
  · let options : WorkerOptions := {
      url
      headers := [("Accept".toList,manifestAccept)]
      limit := maxManifestBytes
      peer := []
      allowPrivate := !(dockerHubRegistries.contains origin.1) }
    have hconfined : ∀ sent, Made settings .manifest options sent → Confined settings state.sent sent :=
      fun sent hmade => confined_manifest hmade rfl (fun value => accept_only) horigin rfl
    refine .bind (requestBytes_sound hsound hconfined) fun first => ?_
    refine .bind (R := fun _ s => Sound settings s) ?_ ?_
    · unfold RegistrySettings.answerChallenge
      refine .ite (fun hchallenged => ?_) fun _ => .pure fun _ ⟨_,_,_,_,h⟩ => h
      rintro s ⟨sent,hmade,hresult,rfl,hs⟩
      have htried := hmade.replied first hresult
      have hstatus : first.status = 401 := by
        rw [Bool.and_eq_true,decide_eq_true_eq] at hchallenged
        exact hchallenged.1
      have hasked : sent.options.url = url := by rw [hmade.same_options]
      have hanswered : Answered settings (state.sent ++ [sent]) options.url
          (settings.bodies.headerValue first.headers "WWW-Authenticate".toList) first.peer origin sent first :=
        ⟨List.mem_append_right _ (List.mem_singleton_self sent),hmade.same_purpose,hasked,horigin,hresult,hstatus,rfl,
          rfl,htried,(hmade.tried _ htried).1⟩
      exact requestAgain_ends hs hanswered (fun value => accept_only) rfl _ rfl
    · intro reply
      exact .ite (fun _ => .throw fun _ h => h) fun _ => .pure fun _ h => h

theorem requestJson_keeps (settings : RegistrySettings) (url reference : Str) :
    Keeps (Sound settings) (settings.requestJson url [] reference) := by
  unfold RegistrySettings.requestJson
  refine .bind (.except (requestAnswer_keeps settings url) fun _ => .throw) fun answer => ?_
  refine .bind (.ofExcept (fun _ _ _ h => h) fun _ _ _ h => h) fun payload => .pure

end

end

/-! Runs -/

namespace RegistrySettings
open Program
variable (settings : RegistrySettings)

/-- The state after manifests were asked for at some URLs, whatever came of it. -/
def run (state : ResolverState) (calls : List (Str × Str)) : ResolverState :=
  calls.foldl (fun state call => ((settings.requestJson call.1 [] call.2).exec state).2) state

theorem sound_run {state : ResolverState} (h : Sound settings state) (calls : List (Str × Str)) :
    Sound settings (settings.run state calls) := by
  induction calls generalizing state with
  | nil => exact h
  | cons call rest ih =>
    apply ih
    have hkept := requestJson_keeps settings call.1 call.2 state h
    dsimp only
    split at hkept
    · next hexec => rwa [hexec]
    · next hexec => rwa [hexec]

/-- Fetching a document makes the requests for its URL. -/
theorem exec_fetch (image : RegistryImageRef) (reference : Str) (state : ResolverState) :
    ((settings.fetch image reference).exec state).2 =
      ((settings.requestJson (manifestUrl image reference) [] reference).exec state).2 := by
  unfold fetch
  rw [exec_bind]
  split
  · next hexec => rw [hexec,exec_pure]
  · next hexec => rw [hexec]

/-- Every request of a resolver is confined: tokens are asked for at allowed origins only and go back to the registry
whose challenge obtained them, and the addresses and pinned peers of a request are right for it. -/
theorem requests_confined (calls : List (Str × Str)) : AllConfined settings (settings.run {} calls).sent :=
  (settings.sound_run ⟨fun before sent after h => absurd h (by simp),by simp⟩ calls).confined

/-- A registry in a private network that gives tokens itself: it answers with a challenge, the token, the manifest. -/
def privateRegistry : RegistrySettings where
  rules := {
    cases := plainCase
    urls := { wordChar := fun _ => false, refusedNetloc := fun _ => false }
    isGlobal := fun address => !privateAddress address }
  authOrigins := some (.object [])
  timeout := some 5
  hexdigest _ _ := []
  decode body := some (.object (if body = [1] then [("token".toList,.string "secret".toList)] else []))
  exchange n := {
    addresses := some ["10.0.0.7".toList]
    connect := fun _ => .made
    response := some (
      if n = 0 then
        (401,[("WWW-Authenticate".toList,"Bearer realm=\"https://registry.lan:5000/token\",scope=\"a\"".toList)],[])
      else if n = 1 then (200,[],[1])
      else (200,[],[2]))
    ends := .replied }

example : ((privateRegistry.run {} [("https://registry.lan:5000/v2/app/manifests/1".toList,[])]).sent.map fun sent =>
    (sent.options.url,sent.tried,sent.options.peer,sent.options.headers.lookup "Authorization".toList)) =
      [("https://registry.lan:5000/v2/app/manifests/1".toList,["10.0.0.7".toList],[],none),
        ("https://registry.lan:5000/token?scope=a".toList,["10.0.0.7".toList],"10.0.0.7".toList,none),
        ("https://registry.lan:5000/v2/app/manifests/1".toList,["10.0.0.7".toList],"10.0.0.7".toList,
          some "Bearer secret".toList)] := by
  decide +kernel

/-- An answer, or the message of a failure. -/
def answerOrMessage : Except RegistryFailure RegistryAnswer → Except Str RegistryAnswer
  | .ok answer => .ok answer
  | .error (.request message) => .error message
  | .error (.manifest (.lookup message)) => .error message
  | .error _ => .error []

/-- The registry as a resolver in a state finds it. -/
def answers (state : ResolverState) : RegistryHttp :=
  { settings.bodies with
    request := fun image reference =>
      answerOrMessage ((settings.requestAnswer (manifestUrl image reference) []).exec state).1 }

/-- A document is fetched as the verifier's registry fetches it, where requests fail as manifests that cannot be
read. -/
theorem fetch_eq {image : RegistryImageRef} {reference : Str} {state : ResolverState}
    (h : ∀ failure, ((settings.requestAnswer (manifestUrl image reference) []).exec state).1 = .error failure →
      ∃ message, failure = .request message ∨ failure = .manifest (.lookup message)) :
    ((settings.fetch image reference).exec state).1 =
      ((settings.answers state).fetch image reference).mapError .manifest := by
  cases houtcome : (settings.requestAnswer (manifestUrl image reference) []).exec state with
  | mk result after =>
    have hrequest : (settings.answers state).request image reference = answerOrMessage result := by
      simp only [answers,houtcome]
    rw [houtcome] at h
    unfold fetch requestJson RegistryHttp.fetch
    simp only [exec_bind,Program.except,exec_tryCatch,houtcome,hrequest,exec_ofExcept]
    cases result with
    | error failure =>
      obtain ⟨message,rfl | rfl⟩ := h failure rfl
      · rfl
      · rfl
    | ok answer =>
      have hdigests : (settings.answers state).verifyResponseDigests answer.body answer.headers reference =
          settings.bodies.verifyResponseDigests answer.body answer.headers reference := rfl
      have hpayload : (settings.answers state).jsonPayload answer.body = settings.bodies.jsonPayload answer.body := rfl
      change _ = Except.mapError _ ((settings.answers state).verifyResponseDigests answer.body answer.headers reference
        >>= fun _ => (settings.answers state).jsonPayload answer.body >>= fun payload =>
          RegistryHttp.verifyIndexChildDigests payload reference >>= fun _ => _)
      rw [hdigests,hpayload]
      dsimp only
      cases settings.bodies.verifyResponseDigests answer.body answer.headers reference with
      | error failure => rfl
      | ok _ =>
        cases settings.bodies.jsonPayload answer.body with
        | error failure => rfl
        | ok payload =>
          simp only [bind,Except.bind]
          cases RegistryHttp.verifyIndexChildDigests payload reference with
          | error failure => rfl
          | ok _ => rfl

end RegistrySettings

end Wudup

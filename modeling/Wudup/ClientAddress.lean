import Wudup.RequestContext

/-! A client behind a trusted proxy has the address the proxy appends, whatever it sends itself. -/
namespace Wudup
open Library

/-- What separates or wraps the elements of a header. -/
def separators : Str := ['"',',',';','[',']'] ++ whitespace

/-- A text that denotes an address and that no header syntax takes apart. -/
structure IsAddress (address : Str) : Prop where
  denotes : (ipAddress address).isSome
  plain : ∀ c ∈ address, c ∉ separators

/-- Addresses without a zone are plain. -/
theorem isAddress_of_no_zone {address : Str} (h : (ipAddress address).isSome) (hz : '%' ∉ address) :
    IsAddress address := by
  obtain ⟨ip,hip⟩ := Option.isSome_iff_exists.mp h
  have hchars : ∀ c ∈ addressChars, c ∉ separators := forall_mem_of_all (by decide)
  exact ⟨h,fun c hc => hchars c (ipAddress_chars hip hz c hc)⟩

def IsPort (port : Str) : Prop := port ≠ [] ∧ ∀ c ∈ port, c.isDigit = true

/-- The forms an address is sent in: bare, with a port, in brackets, in quotes. -/
inductive AddressForm (address : Str) : Str → Prop where
  | bare : AddressForm address address
  | port {port : Str} : (parseIPv4 address).isSome → IsPort port → AddressForm address (address ++ ':' :: port)
  | bracketed : AddressForm address ('[' :: address ++ [']'])
  | bracketedPort {port : Str} : IsPort port → AddressForm address ('[' :: address ++ ']' :: ':' :: port)
  | quoted {form : Str} : AddressForm address form → AddressForm address ('"' :: form ++ ['"'])

/-- A proxy appends an element to the line the client sent, or sets the line. -/
inductive ProxyAppends (element : Str) : Str → Prop where
  | alone {before after : Str} : (∀ c ∈ before, c ∈ whitespace) → (∀ c ∈ after, c ∈ whitespace) →
      ProxyAppends element (before ++ element ++ after)
  | after {client before after : Str} : (∀ c ∈ before, c ∈ whitespace) → (∀ c ∈ after, c ∈ whitespace) →
      ProxyAppends element (client ++ ',' :: (before ++ element ++ after))

/-- A `Forwarded` element whose first piece that reads as a `for` parameter holds the address; other pieces
may quote semicolons. -/
structure ForElement (address element : Str) : Prop where
  trimmed : strip element = element
  comma_free : ',' ∉ element
  address_first : ∃ before form rest, element.splitOn ';' = before ++ form :: rest ∧
    (∀ piece ∈ before, forParameter piece = none) ∧
    ∃ value, forParameter form = some value ∧ AddressForm address value

/-- The proxy appends the address to the line of `X-Forwarded-For`, or to that of `Forwarded` when no
`X-Forwarded-*` line says anything. -/
inductive AppendsAddress (request : Request) (address : Str) : Prop where
  | xForwardedFor {form : Str} : AddressForm address form →
      ProxyAppends form (request.header forwardedForHeader) → AppendsAddress request address
  | forwarded {element : Str} : hasXForwardedHeaders request = false → ForElement address element →
      ProxyAppends element (request.header forwardedHeader) → AppendsAddress request address

/-! Stripping and splitting -/

theorem not_whitespace {c : Char} (h : c ∉ separators) : c ∉ whitespace := fun hw =>
  h (List.mem_append_right _ hw)

theorem port_plain {port : Str} (h : IsPort port) : ∀ c ∈ port, c ∉ separators := by
  have hchars : ∀ c ∈ addressChars, c ∉ separators := forall_mem_of_all (by decide)
  exact fun c hc => hchars c (digit_addressChar (h.2 c hc))

/-- No form of an address holds whitespace or what parts elements and parameters. -/
theorem form_chars {address form : Str} (ha : IsAddress address) (h : AddressForm address form) :
    ∀ c ∈ form, c ∉ whitespace ∧ c ≠ ',' ∧ c ≠ ';' := by
  have hplain : ∀ c, c ∉ separators → c ∉ whitespace ∧ c ≠ ',' ∧ c ≠ ';' := by
    intro c hc
    refine ⟨not_whitespace hc,?_,?_⟩
    · rintro rfl
      exact hc (by decide)
    · rintro rfl
      exact hc (by decide)
  have haddress : ∀ c ∈ address, c ∉ whitespace ∧ c ≠ ',' ∧ c ≠ ';' := fun c hc => hplain c (ha.plain c hc)
  have hwraps : ∀ c ∈ ['"','[',']',':'], c ∉ whitespace ∧ c ≠ ',' ∧ c ≠ ';' :=
    forall_mem_of_all (by decide)
  induction h with
  | bare => exact haddress
  | port _ hport =>
    intro c hc
    rcases List.mem_append.mp hc with hc | hc
    · exact haddress c hc
    · rcases List.mem_cons.mp hc with rfl | hc
      · exact hwraps _ (by simp)
      · exact hplain c (port_plain hport c hc)
  | bracketed =>
    intro c hc
    rcases List.mem_append.mp hc with hc | hc
    · rcases List.mem_cons.mp hc with rfl | hc
      · exact hwraps _ (by simp)
      · exact haddress c hc
    · exact hwraps c (by simp_all)
  | bracketedPort hport =>
    intro c hc
    rcases List.mem_append.mp hc with hc | hc
    · rcases List.mem_cons.mp hc with rfl | hc
      · exact hwraps _ (by simp)
      · exact haddress c hc
    · rcases List.mem_cons.mp hc with rfl | hc
      · exact hwraps _ (by simp)
      · rcases List.mem_cons.mp hc with rfl | hc
        · exact hwraps _ (by simp)
        · exact hplain c (port_plain hport c hc)
  | quoted _ ih =>
    intro c hc
    rcases List.mem_append.mp hc with hc | hc
    · rcases List.mem_cons.mp hc with rfl | hc
      · exact hwraps _ (by simp)
      · exact ih c hc
    · exact hwraps c (by simp_all)

/-- The last element of a line is the one that was appended. -/
theorem last_of_appends {element line : Str} (h : ProxyAppends element line) (hs : strip element = element)
    (hne : element ≠ []) (hcomma : ',' ∉ element) : lastForwardedHeaderValue line = element := by
  have hspace : ∀ text : Str, (∀ c ∈ text, c ∈ whitespace) → ',' ∉ text := fun text ht hc =>
    absurd (ht _ hc) (by decide)
  have hpiece : ∀ before after : Str, (∀ c ∈ before, c ∈ whitespace) → (∀ c ∈ after, c ∈ whitespace) →
      ',' ∉ before ++ element ++ after ∧ strip (before ++ element ++ after) = element := by
    intro before after hb ha
    constructor
    · simp [hspace before hb,hspace after ha,hcomma]
    · rw [strip,stripChars_around hb ha]
      exact hs
  cases h with
  | alone hb ha =>
    obtain ⟨hc,hstrip⟩ := hpiece _ _ hb ha
    simp only [lastForwardedHeaderValue,List.splitOn_eq_singleton hc,List.reverse_singleton,List.map_cons,hstrip]
    rw [List.find?_cons_of_pos (by simpa using hne)]
    rfl
  | after hb ha =>
    obtain ⟨hc,hstrip⟩ := hpiece _ _ hb ha
    simp only [lastForwardedHeaderValue,List.splitOn_append_cons_self,List.splitOn_eq_singleton hc,
      List.reverse_append,List.reverse_singleton,List.singleton_append,List.map_cons,hstrip]
    rw [List.find?_cons_of_pos (by simpa using hne)]
    rfl

/-! Normalisation -/

theorem isAddress_ne_nil {address : Str} (h : IsAddress address) : address ≠ [] := by
  rintro rfl
  exact absurd h.denotes (by decide)

theorem lower_ne_unknown {raw : Str} {c : Char} (hc : c ∈ raw) (hl : c.toLower ∉ unknownClient) :
    lower raw ≠ unknownClient := by
  intro h
  apply hl
  rw [← h]
  exact List.mem_map_of_mem hc

theorem isAddress_not_unknown {address : Str} (h : IsAddress address) : lower address ≠ unknownClient := by
  by_cases hz : '%' ∈ address
  · exact lower_ne_unknown hz (by decide)
  · have hchars : ∀ c ∈ addressChars, c.toLower ∉ unknownClient := forall_mem_of_all (by decide)
    obtain ⟨c,hc⟩ := List.exists_mem_of_ne_nil _ (isAddress_ne_nil h)
    obtain ⟨ip,hip⟩ := Option.isSome_iff_exists.mp h.denotes
    exact lower_ne_unknown hc (hchars c (ipAddress_chars hip hz c hc))

theorem not_mem_address {address : Str} (h : IsAddress address) {c : Char} (hc : c ∈ separators) :
    c ∉ address := fun hm => h.plain c hm hc

theorem not_mem_port {port : Str} (h : IsPort port) {c : Char} (hc : c.isDigit = false) : c ∉ port := fun hm => by
  rw [h.2 c hm] at hc
  cases hc

theorem isDigits_port {port : Str} (h : IsPort port) : isDigits port = true := by
  simp only [isDigits,Bool.and_eq_true,decide_eq_true_eq,List.all_eq_true]
  exact ⟨h.1,fun c hc => isDigit_of_ascii (h.2 c hc)⟩

theorem ipAddressOrEmpty_address {address : Str} (h : IsAddress address) :
    ipAddressOrEmpty address = address := if_pos h.denotes

/-- A text that neither whitespace nor quotes end is taken as it is. -/
theorem strip_raw {raw : Str} (hspace : ∀ c ∈ raw, c ∉ whitespace) (hquote : '"' ∉ raw) :
    stripChars ['"'] (strip raw) = raw := by
  rw [strip,stripChars_eq_self hspace]
  apply stripChars_eq_self
  intro c hc
  rw [List.mem_singleton]
  rintro rfl
  exact hquote hc

/-- Every form normalises to the bare address. -/
theorem normalize_form {address form : Str} (ha : IsAddress address) (h : AddressForm address form) :
    normalizeForwardedClientAddress form = address := by
  have hspace : ∀ {form : Str}, AddressForm address form → ∀ c ∈ form, c ∉ whitespace :=
    fun h c hc => (form_chars ha h c hc).1
  have hne := isAddress_ne_nil ha
  have hbracket : '[' ∉ address := not_mem_address ha (by decide)
  have hquote : '"' ∉ address := not_mem_address ha (by decide)
  have hclose : ']' ∉ address := not_mem_address ha (by decide)
  have hhead : ∀ rest : Str, (address ++ rest).head? ≠ some '[' := by
    intro rest hh
    rw [List.head?_append_of_ne_nil _ hne] at hh
    exact hbracket (List.mem_of_head? hh)
  induction h with
  | bare =>
    have hfirst : address.head? ≠ some '[' := by simpa using hhead []
    unfold normalizeForwardedClientAddress
    simp [strip_raw (hspace .bare) hquote,hne,isAddress_not_unknown ha,hfirst,ipAddressOrEmpty_address ha]
  | @port port hv4 hport =>
    obtain ⟨ip,hip⟩ := Option.isSome_iff_exists.mp hv4
    have hraw : '"' ∉ address ++ ':' :: port := by
      simp [hquote,not_mem_port hport (c := '"') (by decide)]
    have hcolon : ':' ∉ port := not_mem_port hport (by decide)
    have hunknown : lower (address ++ ':' :: port) ≠ unknownClient :=
      lower_ne_unknown (c := ':') (by simp) (by decide)
    have hnone : ipAddressOrEmpty (address ++ ':' :: port) = [] := by
      rw [ipAddressOrEmpty,ipAddress_port hip hcolon (not_mem_port hport (by decide))]
      rfl
    have hcut : cutLast ':' (address ++ ':' :: port) = some (address,port) := cutLast_append hcolon
    unfold normalizeForwardedClientAddress
    rw [strip_raw (hspace (.port hv4 hport)) hraw]
    dsimp only
    rw [if_neg (by simp [hunknown]),if_neg (hhead _),if_neg (by simp [hnone]),hcut]
    simp [isDigits_port hport,ha.denotes]
  | bracketed =>
    have hraw : '"' ∉ '[' :: address ++ [']'] := by simp [hquote]
    have hunknown : lower ('[' :: address ++ [']']) ≠ unknownClient :=
      lower_ne_unknown (c := '[') (by simp) (by decide)
    have hfirst : ('[' :: address ++ [']']).head? = some '[' := rfl
    have hcut : cut ']' (address ++ [']']) = some (address,[]) := cut_append hclose
    unfold normalizeForwardedClientAddress
    rw [strip_raw (hspace .bracketed) hraw]
    dsimp only
    rw [if_neg (by simpa using hunknown),if_pos hfirst]
    simp [hcut]
  | @bracketedPort port hport =>
    have hraw : '"' ∉ '[' :: address ++ ']' :: ':' :: port := by
      simp [hquote,not_mem_port hport (c := '"') (by decide)]
    have hunknown : lower ('[' :: address ++ ']' :: ':' :: port) ≠ unknownClient :=
      lower_ne_unknown (c := '[') (by simp) (by decide)
    have hfirst : ('[' :: address ++ ']' :: ':' :: port).head? = some '[' := rfl
    have hcut : cut ']' (address ++ ']' :: ':' :: port) = some (address,':' :: port) := cut_append hclose
    unfold normalizeForwardedClientAddress
    rw [strip_raw (hspace (.bracketedPort hport)) hraw]
    dsimp only
    rw [if_neg (by simpa using hunknown),if_pos hfirst]
    simp [hcut]
  | @quoted form h ih =>
    have hquotes : stripChars ['"'] (strip ('"' :: form ++ ['"'])) = stripChars ['"'] (strip form) := by
      rw [strip,strip,stripChars_eq_self (hspace (.quoted h)),stripChars_eq_self (hspace h)]
      exact @stripChars_around _ form ['"'] ['"'] (by simp) (by simp)
    rw [← ih]
    unfold normalizeForwardedClientAddress
    rw [hquotes]

/-! The address of a request -/

theorem form_ne_nil {address form : Str} (ha : IsAddress address) (h : AddressForm address form) :
    form ≠ [] := by
  cases h with
  | bare => exact isAddress_ne_nil ha
  | port => simp
  | bracketed => simp
  | bracketedPort => simp
  | quoted => simp

theorem address_of_form {address form : Str} (ha : IsAddress address) (h : AddressForm address form) :
    ipAddressOrEmpty (normalizeForwardedClientAddress form) = address := by
  rw [normalize_form ha h]
  exact ipAddressOrEmpty_address ha

theorem last_of_form {address form line : Str} (ha : IsAddress address) (h : AddressForm address form)
    (hl : ProxyAppends form line) : lastForwardedHeaderValue line = form := by
  have hchars := form_chars ha h
  apply last_of_appends hl
  · exact stripChars_eq_self fun c hc => (hchars c hc).1
  · exact form_ne_nil ha h
  · exact fun hc => (hchars ',' hc).2.1 rfl

theorem address_of_forElement {address element line : Str} (ha : IsAddress address)
    (h : ForElement address element) (hl : ProxyAppends element line) :
    clientAddressFromForwardedHeader line = address := by
  obtain ⟨before,form,rest,hsplit,hbefore,value,hvalue,hform⟩ := h.address_first
  have hne : element ≠ [] := by
    rintro rfl
    have hmem : form ∈ List.splitOn ';' ([] : Str) := by
      rw [hsplit]
      simp
    have hnil : form = [] := by simpa using hmem
    rw [hnil] at hvalue
    cases hvalue
  have hfind : (element.splitOn ';').findSome? forParameter = some value := by
    rw [hsplit,List.findSome?_append,List.findSome?_eq_none_iff.mpr hbefore,Option.none_or,
      List.findSome?_cons_of_isSome (by simp [hvalue]),hvalue]
  unfold clientAddressFromForwardedHeader
  rw [last_of_appends hl h.trimmed hne h.comma_free,hfind]
  exact address_of_form ha hform

theorem requestClientAddress_eq {settings : ProxySettings} {request : Request} {address : Str}
    (ht : clientIsTrustedProxy request settings = true) (ha : IsAddress address)
    (h : AppendsAddress request address) : requestClientAddress request settings = address := by
  have hforwarded : trustedForwardedClientAddress request settings = address := by
    unfold trustedForwardedClientAddress
    rw [ht]
    cases h with
    | xForwardedFor hform hl =>
      have hlast := last_of_form ha hform hl
      have hx : hasXForwardedHeaders request = true := by
        simp [hasXForwardedHeaders,hlast,form_ne_nil ha hform]
      simp [hx,hlast,address_of_form ha hform]
    | forwarded hx helement hl =>
      simp [hx,address_of_forElement ha helement hl]
  unfold requestClientAddress
  simp [hforwarded,isAddress_ne_nil ha]

/-- Every form of the appended address gives the bare address, and what else the requests say changes
neither it nor how their login attempts are counted. -/
theorem appended_address_counts (rules : LoginRules) (settings : ProxySettings) {address : Str}
    (ha : IsAddress address) :
    (∀ form, AddressForm address form → normalizeForwardedClientAddress form = address) ∧
    ∀ request request', clientIsTrustedProxy request settings = true →
      clientIsTrustedProxy request' settings = true → AppendsAddress request address →
      AppendsAddress request' address →
      requestClientAddress request settings = address ∧
      (∀ username, rules.loginThrottleKey username (requestClientAddress request settings) =
        rules.loginThrottleKey username (requestClientAddress request' settings)) ∧
      ∀ username now state, rules.reserveLoginAttempt request settings username now state =
        rules.reserveLoginAttempt request' settings username now state := by
  constructor
  · exact fun form hform => normalize_form ha hform
  · intro request request' ht ht' h h'
    have heq := requestClientAddress_eq ht ha h
    have heq' := requestClientAddress_eq ht' ha h'
    refine ⟨heq,?_,?_⟩
    · intro username
      rw [heq,heq']
    · intro username now state
      unfold LoginRules.reserveLoginAttempt
      rw [heq,heq']

section
def localProxy : ProxySettings := ⟨[.v4 0x0a000000#32 8]⟩

def fromProxy (headers : List (Str × Str)) : Request := ⟨headers,some "10.0.0.2".toList⟩

def clientAddress : Str := "198.51.100.10".toList

/-- The lines of a header. -/
def Request.lines (request : Request) (name : Str) : List Str :=
  (request.headers.filter (·.1 = name)).map (·.2)

theorem clientAddress_isAddress : IsAddress clientAddress := isAddress_of_no_zone (by decide) (by decide)

def spoofedAddress : Str := "203.0.113.66".toList

/-- The client's own line stands before the one the proxy adds. -/
def twoLines : Request := fromProxy [(forwardedForHeader,spoofedAddress),(forwardedForHeader,clientAddress)]

/-- The proxy only sets `Forwarded`, the client sends the other header. -/
def otherHeader : Request :=
  fromProxy [(forwardedForHeader,spoofedAddress),(forwardedHeader,"for=198.51.100.10".toList)]

/-- The proxy quotes the client's `Host`, which holds a comma. -/
def quotedComma : Request :=
  fromProxy [(forwardedHeader,"for=198.51.100.10;host=\"a, for=203.0.113.66\"".toList)]

/-- The proxy quotes the client's `Host`, which holds a semicolon, before the address. -/
def quotedSemicolon : Request :=
  fromProxy [(forwardedHeader,"host=\"a;for=203.0.113.66\";for=198.51.100.10".toList)]

/-- A further header line, a header the proxy does not set, and quoted separators leave the choice to the
client. -/
theorem client_chooses_address :
    (¬∀ (settings : ProxySettings) (request : Request) (address form : Str) (client : List Str),
      clientIsTrustedProxy request settings = true → IsAddress address → AddressForm address form →
      request.lines forwardedForHeader = client ++ [form] → requestClientAddress request settings = address) ∧
    ∀ request ∈ [otherHeader,quotedComma,quotedSemicolon],
      requestClientAddress request localProxy = spoofedAddress := by
  constructor
  · intro h
    have heq := h localProxy twoLines clientAddress clientAddress [spoofedAddress] (by decide)
      clientAddress_isAddress .bare (by decide)
    exact absurd heq (by decide)
  · decide

/-- Two requests of one client, which sends a line of its own with the second. -/
def plainRequest : Request := fromProxy [(forwardedForHeader,clientAddress)]

def spoofingRequest : Request :=
  fromProxy [(forwardedForHeader,"203.0.113.66, \"198.51.100.10:4711\"".toList),
    (forwardedHeader,"for=203.0.113.66".toList)]

def loginRules : LoginRules := ⟨lower,5,60⟩

theorem spoofing_request_same_key :
    requestClientAddress plainRequest localProxy = clientAddress ∧
      ∀ username, loginRules.loginThrottleKey username (requestClientAddress plainRequest localProxy) =
        loginRules.loginThrottleKey username (requestClientAddress spoofingRequest localProxy) := by
  have hplain : AppendsAddress plainRequest clientAddress :=
    .xForwardedFor .bare (@ProxyAppends.alone clientAddress [] [] (by simp) (by simp))
  have hform : AddressForm clientAddress "\"198.51.100.10:4711\"".toList :=
    .quoted (@AddressForm.port clientAddress "4711".toList (by decide)
      ⟨by decide,forall_mem_of_all (by decide)⟩)
  have hspoofing : AppendsAddress spoofingRequest clientAddress :=
    .xForwardedFor hform (@ProxyAppends.after _ "203.0.113.66".toList " ".toList []
      (forall_mem_of_all (by decide)) (by simp))
  obtain ⟨-,h⟩ := appended_address_counts loginRules localProxy clientAddress_isAddress
  obtain ⟨heq,hkey,-⟩ := h plainRequest spoofingRequest (by decide) (by decide) hplain hspoofing
  exact ⟨heq,hkey⟩

end
end Wudup

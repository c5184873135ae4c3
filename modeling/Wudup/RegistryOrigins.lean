import Wudup.DigestDocuments
import Wudup.Library.IpAddress
import Wudup.Library.Traverse
import Wudup.Redaction

/-! Origins of registry URLs, and the token URLs that challenges give: a query put behind a URL does not change
where it leads. -/
namespace Wudup
open Library

/-- A host and a port. -/
abbrev UrlOrigin := Str × ℕ

inductive RegistryFailure where
  /-- A request that could not be completed safely. -/
  | request (message : Str)
  | manifest (error : FetchError)
  /-- A value of a challenge is read that has no characters. -/
  | indexError
  deriving DecidableEq, Repr

/-- What is taken from outside: letter case, how URLs are split, and which addresses are global. -/
structure RegistryRules where
  cases : CaseRules
  urls : RedactionRules
  isGlobal : IpAddress → Bool

def requestRefused {α : Type} (message : String) : Except RegistryFailure α := .error (.request message.toList)

/-! Origins -/

/-- The host and the port of the part of a URL that names them; a port that is missing is empty. -/
def hostInfo (netloc : Str) : Str × Str :=
  let hostinfo := ((cutLast '@' netloc).map (·.2)).getD netloc
  match cut '[' hostinfo with
  | some (_,bracketed) => ((splitAtChar ']' bracketed).1,(splitAtChar ':' (splitAtChar ']' bracketed).2).2)
  | none => splitAtChar ':' hostinfo

def portNumber (port : Str) : Option ℕ :=
  if port = [] then some 443
  else if !port.all Char.isDigit then none
  else (readDecimal port).filter fun n => n ≠ 0 && n ≤ 65535

/-- The origin that the host part of a URL names, unless it has credentials or a zone. -/
def netlocOrigin (netloc : Str) : Option UrlOrigin :=
  let host := ((hostInfo netloc).1.map Char.toLower).rdropWhile (· = '.')
  if host = [] || netloc.contains '@' || host.contains '%' then none
  else (portNumber (hostInfo netloc).2).map fun port => (host,port)

/-- What follows the first `#` behind the host of a URL. -/
def urlFragment (url : Str) : Str := (splitAtChar '#' (splitNetloc (splitScheme url).2).2).2

def refusedUrl : String := "Registry request refused: use an HTTPS URL without credentials or fragments."

section
variable (rules : RegistryRules)

def httpsOrigin (url : Str) : Except RegistryFailure UrlOrigin :=
  if url.any (fun c => c.toNat ≤ 32 || 127 ≤ c.toNat) || url.contains '\\' then requestRefused refusedUrl
  else match urlsplit rules.urls url with
    | none => requestRefused refusedUrl
    | some parsed =>
      if parsed.scheme ≠ "https".toList || urlFragment url ≠ [] then requestRefused refusedUrl
      else match netlocOrigin parsed.netloc with
        | none => requestRefused refusedUrl
        | some origin => .ok origin

end

/-! Challenges -/

/-- How far a list of a header has been read. -/
structure HttpList where
  items : List Str := []
  part : Str := []
  escape : Bool := false
  quote : Bool := false

/-- A comma ends an item, unless it is quoted or escaped. -/
def HttpList.read (list : HttpList) (cur : Char) : HttpList :=
  if list.escape then { list with part := list.part ++ [cur], escape := false }
  else if list.quote then
    if cur = '\\' then { list with escape := true }
    else { list with part := list.part ++ [cur], quote := cur ≠ '"' }
  else if cur = ',' then { list with items := list.items ++ [list.part], part := [] }
  else { list with part := list.part ++ [cur], quote := cur = '"' }

def parseHttpList (text : Str) : List Str :=
  let list := text.foldl HttpList.read {}
  (if list.part = [] then list.items else list.items ++ [list.part]).map strip

def noTokenUrl : String := "Registry authentication failed: no valid token URL."

/-- A key and its value, without the quotes around it. -/
def parseKeqv (item : Str) : Except RegistryFailure (Str × Str) :=
  match cut '=' item with
  | none => requestRefused noTokenUrl
  | some (_,[]) => .error .indexError
  | some (key,value) =>
    .ok (key,if value.head? = some '"' && value.getLast? = some '"' then (value.drop 1).dropLast else value)

def parseKeqvList (items : List Str) : Except RegistryFailure (List (Str × Str)) := items.mapM parseKeqv

/-- The value of a key; the last one given counts. -/
def keqvValue (values : List (Str × Str)) (key : Str) : Option Str := values.reverse.lookup key

def safeChar (c : Char) : Bool := c.isAlphanum || ['_','.','-','~'].contains c

def percentByte (byte : UInt8) : Str :=
  let digits := "0123456789ABCDEF".toList
  ['%',digits.getD (byte.toNat / 16) '0',digits.getD (byte.toNat % 16) '0']

def quotePlus (value : Str) : Str :=
  value.flatMap fun c =>
    if c = ' ' then ['+'] else if safeChar c then [c] else (String.utf8EncodeChar c).flatMap percentByte

def urlencode (query : List (Str × Str)) : Str :=
  ['&'].intercalate (query.map fun (key,value) => quotePlus key ++ '=' :: quotePlus value)

def dockerHubOrigin : UrlOrigin := ("registry-1.docker.io".toList,443)
def dockerHubAuthOrigin : UrlOrigin := ("auth.docker.io".toList,443)

/-- The origins a registry may get tokens from without being configured. -/
def allowedOrigins (registry : UrlOrigin) : List UrlOrigin :=
  if registry = dockerHubOrigin then [registry,dockerHubAuthOrigin] else [registry]

section
variable (rules : RegistryRules)

/-- What an entry of the configuration adds for a registry. -/
def entryOrigins (registry : UrlOrigin) (entry : Str × Json) : Option (List UrlOrigin) :=
  match entry.2 with
  | .array targets => do
    let targets ← targets.mapM fun target => Json.string? (some target)
    let source ← (httpsOrigin rules entry.1).toOption
    let origins ← targets.mapM fun target => (httpsOrigin rules target).toOption
    return if source = registry then origins else []
  | _ => none

/-- The origins configured for exactly a registry, unless the configuration is not right as a whole. -/
def configuredOrigins (authOrigins : Option Json) (registry : UrlOrigin) : Option (List UrlOrigin) :=
  match authOrigins with
  | some (.object entries) => (entries.mapM (entryOrigins rules registry)).map List.flatten
  | _ => none

def tokenQuery (values : List (Str × Str)) : List (Str × Str) :=
  ["service".toList,"scope".toList].filterMap fun key =>
    ((keqvValue values key).filter (· ≠ [])).map fun value => (key,value)

/-- The realm with what it is asked for. -/
def realmUrl (realm : Str) (query : List (Str × Str)) : Str :=
  let asked := ((urlsplit rules.urls realm).map (·.query)).getD []
  if query = [] then realm else realm ++ (if asked ≠ [] then '&' else '?') :: urlencode query

/-- The URL of the tokens that a challenge asks for, and whether its origin is configured. -/
def tokenUrl (authOrigins : Option Json) (challenge registryUrl : Str) : Except RegistryFailure (Str × Bool) := do
  let registry ← httpsOrigin rules registryUrl
  let (scheme,rest) := splitAtChar ' ' challenge
  if rules.cases.lower scheme ≠ "bearer".toList || rest = [] then
    requestRefused "Registry authentication failed: expected a Bearer challenge."
  else
    let values ← parseKeqvList (parseHttpList rest)
    match keqvValue values "realm".toList with
    | none => requestRefused noTokenUrl
    | some realm =>
      let origin ← httpsOrigin rules realm
      match configuredOrigins rules authOrigins registry with
      | none => requestRefused ("Registry authentication failed: correct the JSON origin mapping in " ++
          "WUD_REGISTRY_AUTH_ORIGINS.")
      | some configured =>
        if !(allowedOrigins registry ++ configured).contains origin then
          requestRefused ("Registry authentication refused an unrelated token server; " ++
            "configure its HTTPS origin in WUD_REGISTRY_AUTH_ORIGINS if it is trusted.")
        else return (realmUrl rules realm (tokenQuery values),configured.contains origin)

end

/-! What a query behind a URL leaves as it is. -/

/-- Texts that are put behind a URL without changing its host: nothing, a query, or more of a query. -/
def Extends (rules : RegistryRules) (realm more : Str) : Prop :=
  more = [] ∨ (∃ query, more = '?' :: query) ∨ ∃ parsed, urlsplit rules.urls realm = some parsed ∧ parsed.query ≠ []

theorem splitScheme_append {url rest : Str} {scheme : Str} (h : splitScheme url = (scheme,rest)) (hne : scheme ≠ [])
    (more : Str) : splitScheme (url ++ more) = (scheme,rest ++ more) := by
  unfold splitScheme at h ⊢
  cases hcut : cut ':' url with
  | none =>
    rw [hcut] at h
    cases h
    exact absurd rfl hne
  | some parts =>
    obtain ⟨left,right⟩ := parts
    obtain ⟨rfl,hleft⟩ := eq_of_cut hcut
    rw [hcut] at h
    rw [List.append_assoc,List.cons_append,cut_append hleft]
    dsimp only at h ⊢
    split_ifs at h ⊢
    · cases h
      rfl
    · cases h
      exact absurd rfl hne

/-- The host ends where the path, the query or the fragment begins. -/
theorem splitNetloc_append {rest more : Str} (hslashes : (splitNetloc rest).1 ≠ [])
    (h : more = [] ∨ (∃ query, more = '?' :: query) ∨ (splitNetloc rest).2 ≠ []) :
    (splitNetloc (rest ++ more)).1 = (splitNetloc rest).1 := by
  unfold splitNetloc at hslashes h ⊢
  by_cases hp : ['/','/'].isPrefixOf rest = true
  · obtain ⟨after,rfl⟩ := List.isPrefixOf_iff_prefix.mp hp
    have hmore : ['/','/'].isPrefixOf (['/','/'] ++ after ++ more) = true := by
      rw [List.isPrefixOf_iff_prefix,List.append_assoc]
      exact List.prefix_append _ _
    rw [if_pos hp] at h ⊢
    rw [if_pos hmore]
    have hafter : (['/','/'] ++ after).drop 2 = after := rfl
    have hafter' : (['/','/'] ++ after ++ more).drop 2 = after ++ more := rfl
    simp only [hafter,hafter'] at h ⊢
    rw [List.takeWhile_append]
    split
    · next hall =>
      have htake := (List.takeWhile_sublist _).eq_of_length hall
      obtain rfl | ⟨query,rfl⟩ | hrest := h
      · rw [htake,List.takeWhile_nil,List.append_nil]
      · rw [htake,List.takeWhile_cons_of_neg (by decide),List.append_nil]
      · rw [List.dropWhile_eq_nil_iff.mpr] at hrest
        · exact absurd rfl hrest
        · exact List.takeWhile_eq_self_iff.mp htake
    · rfl
  · rw [if_neg hp] at hslashes
    exact absurd rfl hslashes

section
variable {rules : RegistryRules} {authOrigins : Option Json} {challenge registryUrl url realm more : Str}
variable {origin other registry : UrlOrigin} {configured : Bool}

/-- The host that a URL leads to. -/
structure LeadsTo (rules : RegistryRules) (url : Str) (origin : UrlOrigin) : Prop where
  plain : ∀ c ∈ url, 32 < c.toNat
  scheme : (splitScheme url).1 = "https".toList
  netloc : netlocOrigin (splitNetloc (splitScheme url).2).1 = some origin
  parsed : urlsplit rules.urls url = some ⟨(splitScheme url).1,(splitNetloc (splitScheme url).2).1,
    (splitAtChar '?' (splitAtChar '#' (splitNetloc (splitScheme url).2).2).1).1,
    (splitAtChar '?' (splitAtChar '#' (splitNetloc (splitScheme url).2).2).1).2⟩

/-- Nothing is taken out of a URL without blanks before it is split. -/
theorem urlsplit_of_plain (h : ∀ c ∈ url, 32 < c.toNat) : urlsplit rules.urls url =
    if rules.urls.refusedNetloc (splitNetloc (splitScheme url).2).1 then none
    else some ⟨(splitScheme url).1,(splitNetloc (splitScheme url).2).1,
      (splitAtChar '?' (splitAtChar '#' (splitNetloc (splitScheme url).2).2).1).1,
      (splitAtChar '?' (splitAtChar '#' (splitNetloc (splitScheme url).2).2).1).2⟩ := by
  have hdrop : url.dropWhile (fun c => c.toNat ≤ 32) = url := by
    cases url with
    | nil => rfl
    | cons c rest =>
      rw [List.dropWhile_cons_of_neg]
      have := h c List.mem_cons_self
      simp only [decide_eq_true_eq]
      omega
  have hblank : ∀ c ∈ ['\t','\r','\n'], c.toNat ≤ 32 := forall_mem_of_all (by decide)
  have hkeep : url.filter (fun c => !(['\t','\r','\n'].contains c)) = url := by
    apply List.filter_eq_self.mpr
    intro c hc
    rw [Bool.not_eq_true',Bool.eq_false_iff]
    intro hmem
    have hlow := hblank c (by simpa using hmem)
    have := h c hc
    omega
  unfold urlsplit
  rw [hdrop,hkeep]

theorem leadsTo_of_httpsOrigin (h : httpsOrigin rules url = .ok origin) : LeadsTo rules url origin := by
  unfold httpsOrigin at h
  split_ifs at h with hchars
  · cases h
  · have hplain : ∀ c ∈ url, 32 < c.toNat := by
      intro c hc
      by_contra hlow
      apply hchars
      rw [Bool.or_eq_true]
      exact .inl (List.any_eq_true.mpr ⟨c,hc,by simp; omega⟩)
    have hsplit := @urlsplit_of_plain rules url hplain
    split at h
    · cases h
    · next parsed hparsed =>
      rw [hparsed] at hsplit
      split at hsplit
      · cases hsplit
      · cases hsplit
        split_ifs at h with hscheme
        · cases h
        · split at h
          · cases h
          · next found hfound =>
            cases h
            simp only [Bool.or_eq_true,decide_eq_true_eq,not_or,not_not] at hscheme
            exact ⟨hplain,hscheme.1,hfound,hparsed⟩

/-- A query behind a URL does not change its origin, however both are read. -/
theorem httpsOrigin_extends (hrealm : httpsOrigin rules realm = .ok origin) (hmore : Extends rules realm more)
    (hurl : httpsOrigin rules (realm ++ more) = .ok other) : other = origin := by
  have hbefore := leadsTo_of_httpsOrigin hrealm
  have hafter := leadsTo_of_httpsOrigin hurl
  have hscheme : splitScheme realm = ("https".toList,(splitScheme realm).2) := by
    rw [← hbefore.scheme]
  have hnetloc := hafter.netloc
  rw [splitScheme_append hscheme (by decide) more] at hnetloc
  have hne : (splitNetloc (splitScheme realm).2).1 ≠ [] := by
    intro hnil
    have hfound := hbefore.netloc
    rw [hnil] at hfound
    cases hfound
  have hends : more = [] ∨ (∃ query, more = '?' :: query) ∨ (splitNetloc (splitScheme realm).2).2 ≠ [] := by
    obtain hnone | hquery | ⟨parsed,hparsed,hquery⟩ := hmore
    · exact .inl hnone
    · exact .inr (.inl hquery)
    · refine .inr (.inr ?_)
      intro hnil
      cases hparsed.symm.trans hbefore.parsed
      apply hquery
      dsimp only
      rw [hnil]
      rfl
  rw [splitNetloc_append hne hends,hbefore.netloc] at hnetloc
  exact (Option.some.inj hnetloc).symm

theorem extends_realmUrl (hrealm : httpsOrigin rules realm = .ok origin) (query : List (Str × Str)) :
    ∃ more, realmUrl rules realm query = realm ++ more ∧ Extends rules realm more := by
  have hparsed := (leadsTo_of_httpsOrigin hrealm).parsed
  unfold realmUrl
  split_ifs with hnone
  · exact ⟨[],(List.append_nil _).symm,.inl rfl⟩
  · refine ⟨_,rfl,?_⟩
    split_ifs with hasked
    · refine .inr (.inr ⟨_,hparsed,?_⟩)
      rw [hparsed] at hasked
      exact hasked
    · exact .inr (.inl ⟨_,rfl⟩)

/-- An origin that a registry may get tokens from. -/
def TokenOrigin (rules : RegistryRules) (authOrigins : Option Json) (registry origin : UrlOrigin) : Prop :=
  origin = registry ∨ registry = dockerHubOrigin ∧ origin = dockerHubAuthOrigin ∨
    ∃ configured, configuredOrigins rules authOrigins registry = some configured ∧ origin ∈ configured

/-- A URL for tokens that is asked leads to an origin of the registry, whatever the challenge says. -/
theorem tokenUrl_spec (h : tokenUrl rules authOrigins challenge registryUrl = .ok (url,configured))
    (hurl : httpsOrigin rules url = .ok origin) : ∃ registry, httpsOrigin rules registryUrl = .ok registry ∧
      TokenOrigin rules authOrigins registry origin ∧ (configured = true →
        ∃ found, configuredOrigins rules authOrigins registry = some found ∧ origin ∈ found) := by
  unfold tokenUrl at h
  obtain ⟨registry,hregistry,h⟩ := bind_eq_ok.mp h
  dsimp only at h
  split_ifs at h with hbearer
  · cases h
  · obtain ⟨values,-,h⟩ := bind_eq_ok.mp h
    split at h
    · cases h
    · next realm _ =>
      obtain ⟨asked,hasked,h⟩ := bind_eq_ok.mp h
      split at h
      · cases h
      · next found hfound =>
        split_ifs at h with hallowed
        · cases h
        · cases h
          obtain ⟨more,hmore,hextends⟩ := extends_realmUrl hasked (tokenQuery values)
          rw [hmore] at hurl
          obtain rfl := httpsOrigin_extends hasked hextends hurl
          refine ⟨registry,hregistry,?_,?_⟩
          · have hmem : origin ∈ allowedOrigins registry ++ found := by
              rwa [Bool.not_eq_true',Bool.not_eq_false,List.contains_iff_mem] at hallowed
            obtain hown | hconfigured := List.mem_append.mp hmem
            · unfold allowedOrigins at hown
              split_ifs at hown with hhub
              · simp only [List.mem_cons,List.not_mem_nil,or_false] at hown
                exact hown.imp_right fun hauth => .inl ⟨hhub,hauth⟩
              · exact .inl (List.mem_singleton.mp hown)
            · exact .inr (.inr ⟨found,hfound,hconfigured⟩)
          · intro hcontains
            exact ⟨found,hfound,by simpa using hcontains⟩

end

end Wudup

import Mathlib.Data.List.DropRight
import Wudup.Json
import Wudup.Library.Substitute
import Wudup.Library.Unicode
import Wudup.Matching

/-! Secrets and paths are taken out of texts and of the values of support bundles. -/
namespace Wudup
open Library

/-- What is taken from outside: the letters and digits of words, and the hosts that are refused in a URL. -/
structure RedactionRules where
  wordChar : Char → Bool
  refusedNetloc : Str → Bool

/-- The settings that texts are redacted for; paths are as they are written. -/
structure RedactionSettings where
  authToken : Str
  readonlyToken : Str := []
  secretValues : List Str := []
  commandEnv : List (Str × Str) := []
  wudOutFile : Str
  logDir : Str
  dbPath : Str
  dockerBase : Str
  hostDockerBase : Option Str := none

def sensitiveEnvKeys : List Str :=
  ["WUD_WEB_TOKEN".toList,"WUD_WEB_READONLY_TOKEN".toList,"WUD_WEB_READONLY_TOKEN_FILE".toList,
    "WUD_API_AUTH_BEARER_TOKEN".toList,"WUD_API_AUTH_BEARER_TOKEN_FILE".toList,
    "WUD_API_AUTH_BASIC_PASSWORD".toList,"WUD_API_AUTH_BASIC_PASSWORD_FILE".toList,"GITHUB_TOKEN".toList,
    "DISCORD_WEBHOOK".toList,"DISCORD_RELEASES_WEBHOOK".toList,"ADMIN_WEBHOOK".toList]

def redactedOnlyEnvKeys : List Str := ["WUD_AUTH_ADMIN_PASSWORD".toList]

def redactedText : Str := "<redacted>".toList
def redactedPath : Str := "[REDACTED_PATH]".toList

/-! URLs -/

structure SplitUrl where
  scheme : Str
  netloc : Str
  path : Str
  query : Str
  deriving DecidableEq, Repr

def schemeChar (c : Char) : Bool := c.isAlphanum || ['+','-','.'].contains c

/-- The scheme before the first colon, if it is written like one, and what follows. -/
def splitScheme (url : Str) : Str × Str :=
  match cut ':' url with
  | some (scheme,rest) =>
    if scheme.head?.any Char.isAlpha && scheme.all schemeChar then (scheme.map Char.toLower,rest) else ([],url)
  | none => ([],url)

/-- The text before the character, and the text after it. -/
def splitAtChar (c : Char) (text : Str) : Str × Str := (cut c text).getD (text,[])

/-- The host after two slashes, and what follows. -/
def splitNetloc (url : Str) : Str × Str :=
  if ['/','/'].isPrefixOf url then
    ((url.drop 2).takeWhile fun c => !(['/','?','#'].contains c),
      (url.drop 2).dropWhile fun c => !(['/','?','#'].contains c))
  else ([],url)

/-- The parts of a URL, unless its host is refused. -/
def urlsplit (rules : RedactionRules) (value : Str) : Option SplitUrl :=
  let url := (value.dropWhile fun c => c.toNat ≤ 32).filter fun c => !(['\t','\r','\n'].contains c)
  let schemed := splitScheme url
  let located := splitNetloc schemed.2
  let asked := splitAtChar '?' (splitAtChar '#' located.2).1
  if rules.refusedNetloc located.1 then none else some ⟨schemed.1,located.1,asked.1,asked.2⟩

def secretUrlFragments (rules : RedactionRules) (value : Str) : List Str :=
  match urlsplit rules value with
  | none => []
  | some parsed =>
    if parsed.scheme = [] || parsed.netloc = [] then []
    else
      let path := stripChars ['/'] parsed.path
      (if path.length ≥ 8 then [path] else []) ++ (path.splitOn '/').filter (fun part => part.length ≥ 8) ++
        if parsed.query.length ≥ 8 then [parsed.query] else []

/-! Texts -/

section
variable (rules : RedactionRules) (settings : RedactionSettings) (extraSecrets : List Str)

/-- The configured and extra secrets; those that are not set are empty. -/
def redactionSecrets : List Str :=
  extraSecrets ++ [settings.authToken,settings.readonlyToken] ++ settings.secretValues ++
    (sensitiveEnvKeys ++ redactedOnlyEnvKeys).map fun key => (settings.commandEnv.lookup key).getD []

/-- The secrets and the fragments of those that are URLs, the longest first. -/
def sensitiveRedactionValues : List Str :=
  let expanded := ((redactionSecrets settings extraSecrets).filter (· ≠ [])).flatMap fun value =>
    value :: secretUrlFragments rules value
  orderedUnique ((expanded.insertionSort fun a b => b.length ≤ a.length).filter fun value => value.length ≥ 4)

def generatedReadonlyTokenPrefix : Str := "wudup_ro_".toList

def generatedTokenChar (c : Char) : Bool := c.isAlphanum || c = '_' || c = '-'

/-- A generated token: its beginning, and what follows of it. -/
def tokenFinder : Finder Char := fun _ rest =>
  if generatedReadonlyTokenPrefix.isPrefixOf rest then
    let count := ((rest.drop generatedReadonlyTokenPrefix.length).takeWhile generatedTokenChar).length
    if count = 0 then 0 else generatedReadonlyTokenPrefix.length + count
  else 0

def redactSensitiveText (value : Str) : Str :=
  substitute tokenFinder redactedText
    (substituteWords redactedText (sensitiveRedactionValues rules settings extraSecrets) value)

/-! Paths -/

def addReplacement (replacements : List (Str × Str)) (source label : Str) : List (Str × Str) :=
  if source = [] || (replacements.map (·.1)).contains source then replacements else replacements ++ [(source,label)]

def exactPaths : List (Str × Str) :=
  [(settings.wudOutFile,"<WUD_OUT_FILE>".toList),(settings.logDir,"<WUD_LOG_DIR>".toList),
    (settings.dbPath,"<WUD_DB_PATH>".toList)]

def rootPaths : List (Str × Str) :=
  (settings.dockerBase,"<DOCKER_BASE>".toList) ::
    (settings.hostDockerBase.map fun path => (path,"<HOST_DOCKER_BASE>".toList)).toList

/-- The configured paths, and the roots without the slashes at their ends, the longest first. -/
def supportBundlePathReplacements : List (Str × Str) :=
  let roots := (rootPaths settings).map fun item => (item.1.rdropWhile (· = '/'),item.2)
  ((exactPaths settings ++ rootPaths settings ++ roots).foldl (fun replacements item =>
    addReplacement replacements item.1 item.2) []).insertionSort fun a b => b.1.length ≤ a.1.length

def pathChar (c : Char) : Bool := !whitespace.contains c && !"\"\x27\x60,;)]\x7d".toList.contains c

/-- The characters after the beginning of a path, with it; a path needs one. -/
def pathLength (start : ℕ) (rest : Str) : ℕ :=
  let count := (rest.takeWhile pathChar).length
  if count = 0 then 0 else start + count

/-- An absolute path, of Unix or of Windows. -/
def pathFinder : Finder Char := fun previous rest =>
  match rest with
  | '/' :: more =>
    if previous.any fun c => [':','/','<','>','-'].contains c || rules.wordChar c then 0 else pathLength 1 more
  | '\\' :: '\\' :: more => if previous.any fun c => c = '<' || rules.wordChar c then 0 else pathLength 2 more
  | drive :: ':' :: separator :: more =>
    if drive.isAlpha && ['\\','/'].contains separator && !previous.any (fun c => c = '<' || rules.wordChar c) then
      pathLength 3 more
    else 0
  | _ => 0

def redactUnknownAbsolutePaths (value : Str) : Str := substitute (pathFinder rules) redactedPath value

def sanitizeSupportBundleText (value : Str) : Str :=
  redactUnknownAbsolutePaths rules ((supportBundlePathReplacements settings).foldl
    (fun redacted item => substitute (wordFinder item.1) item.2 redacted)
    (redactSensitiveText rules settings extraSecrets value))

/-! Values -/

mutual

def sanitizeSupportBundleValueWithSecrets : Json → Json
  | .object fields => .object (sanitizeFields fields)
  | .array values => .array (sanitizeElements values)
  | .string value => .string (sanitizeSupportBundleText rules settings extraSecrets value)
  | value => value

def sanitizeElements : List Json → List Json
  | [] => []
  | value :: rest => sanitizeSupportBundleValueWithSecrets value :: sanitizeElements rest

/-- The keys of a mapping are copied. -/
def sanitizeFields : List (Str × Json) → List (Str × Json)
  | [] => []
  | (key,item) :: rest => (key,sanitizeSupportBundleValueWithSecrets item) :: sanitizeFields rest

end

end

/-! What is redacted -/

theorem mem_sensitiveRedactionValues {rules : RedactionRules} {settings : RedactionSettings} {extraSecrets : List Str}
    {value : Str} : value ∈ sensitiveRedactionValues rules settings extraSecrets ↔ 4 ≤ value.length ∧
      ∃ secret ∈ redactionSecrets settings extraSecrets, secret ≠ [] ∧
        (value = secret ∨ value ∈ secretUrlFragments rules secret) := by
  rw [sensitiveRedactionValues,mem_orderedUnique,List.mem_filter,List.mem_insertionSort,List.mem_flatMap]
  simp only [List.mem_filter,decide_eq_true_eq,List.mem_cons,ge_iff_le,and_assoc]
  exact and_comm

theorem mem_of_mem_splitScheme {url : Str} {c : Char} (h : c ∈ (splitScheme url).2) : c ∈ url := by
  unfold splitScheme at h
  split at h
  · rename_i scheme rest hcut
    split at h
    · rw [(eq_of_cut hcut).1]
      simp [show c ∈ rest from h]
    · exact h
  · exact h

theorem mem_of_mem_splitNetloc {url : Str} {c : Char} (h : c ∈ (splitNetloc url).2) : c ∈ url := by
  unfold splitNetloc at h
  split at h
  · exact List.mem_of_mem_drop ((List.dropWhile_sublist _).subset h)
  · exact h

theorem mem_of_mem_splitAtChar {d c : Char} {text : Str}
    (h : c ∈ (splitAtChar d text).1 ∨ c ∈ (splitAtChar d text).2) : c ∈ text := by
  unfold splitAtChar at h
  cases hcut : cut d text with
  | none =>
    rw [hcut] at h
    exact h.elim id fun hnone => absurd hnone List.not_mem_nil
  | some parts =>
    obtain ⟨left,right⟩ := parts
    rw [hcut,Option.getD_some] at h
    rw [(eq_of_cut hcut).1,List.mem_append,List.mem_cons]
    exact h.imp id .inr

/-- The path and the query of a URL are written with its characters. -/
theorem mem_of_urlsplit {rules : RedactionRules} {value : Str} {parsed : SplitUrl}
    (h : urlsplit rules value = some parsed) {c : Char} (hc : c ∈ parsed.path ∨ c ∈ parsed.query) : c ∈ value := by
  unfold urlsplit at h
  dsimp only at h
  split at h
  · cases h
  · cases h
    have hlocated := mem_of_mem_splitAtChar (.inl (mem_of_mem_splitAtChar hc))
    have hurl := mem_of_mem_splitScheme (mem_of_mem_splitNetloc hlocated)
    exact (List.dropWhile_sublist _).subset (List.mem_of_mem_filter hurl)

/-- A fragment has eight characters or more, and they are the secret's. -/
theorem fragment_spec {rules : RedactionRules} {secret fragment : Str}
    (h : fragment ∈ secretUrlFragments rules secret) : 8 ≤ fragment.length ∧ ∀ c ∈ fragment, c ∈ secret := by
  unfold secretUrlFragments at h
  split at h
  · exact absurd h List.not_mem_nil
  · rename_i parsed hparsed
    have hpath : ∀ c ∈ stripChars ['/'] parsed.path, c ∈ secret := fun c hc =>
      mem_of_urlsplit hparsed (.inl ((stripChars_sublist ['/'] parsed.path).subset hc))
    split at h
    · exact absurd h List.not_mem_nil
    · obtain h | h := List.mem_append.mp h
      · obtain h | h := List.mem_append.mp h
        · split at h
          · rename_i hlong
            rw [List.mem_singleton.mp h]
            exact ⟨hlong,hpath⟩
          · exact absurd h List.not_mem_nil
        · obtain ⟨hpart,hlong⟩ := List.mem_filter.mp h
          exact ⟨by simpa using hlong,fun c hc => hpath c (mem_of_mem_splitOn hpart hc)⟩
      · split at h
        · rename_i hlong
          rw [List.mem_singleton.mp h]
          exact ⟨hlong,fun c hc => mem_of_urlsplit hparsed (.inr hc)⟩
        · exact absurd h List.not_mem_nil

/-! What occurs in redacted texts -/

/-- Some token begins in the text. -/
def ContainsToken (text : Str) : Prop :=
  ∃ c, generatedTokenChar c = true ∧ generatedReadonlyTokenPrefix ++ [c] <:+: text

theorem redactedText_eq : redactedText = '<' :: ("redacted".toList ++ ['>']) := rfl

theorem apart_redactedText {word : Str} (hopen : '<' ∉ word) (hclose : '>' ∉ word) (hinner : ¬ word <:+: redactedText) :
    Apart word redactedText := apart_of_ends redactedText_eq hopen hclose hinner

/-- The placeholder holds only one text of eight characters without the angle brackets. -/
theorem not_infix_redactedText {fragment : Str} (hlong : 8 ≤ fragment.length) (hopen : '<' ∉ fragment)
    (hclose : '>' ∉ fragment) (hne : fragment ≠ "redacted".toList) : ¬ fragment <:+: redactedText := by
  intro h
  obtain ⟨before,after,hwhole⟩ := h
  cases before with
  | nil =>
    cases fragment with
    | nil => simp at hlong
    | cons c rest =>
      rw [redactedText_eq] at hwhole
      exact hopen ((List.cons.inj hwhole).1 ▸ List.mem_cons_self)
  | cons c before =>
    obtain rfl | ⟨after,d,rfl⟩ := List.eq_nil_or_concat' after
    · obtain rfl | ⟨rest,d,rfl⟩ := List.eq_nil_or_concat' fragment
      · simp at hlong
      · rw [redactedText_eq,List.append_nil,← List.append_assoc,← List.cons_append] at hwhole
        have hlast := congrArg List.getLast? hwhole
        rw [List.getLast?_concat,List.getLast?_concat] at hlast
        exact hclose (Option.some.inj hlast ▸ by simp)
    · rw [redactedText_eq,List.cons_append,List.cons_append,List.cons.injEq,← List.append_assoc] at hwhole
      have hmiddle := (List.append_inj' hwhole.2 rfl).1
      have hlength := congrArg List.length hmiddle
      rw [List.length_append,List.length_append] at hlength
      have height : "redacted".toList.length = 8 := rfl
      have hbefore : before = [] := List.eq_nil_of_length_eq_zero (by omega)
      have hafter : after = [] := List.eq_nil_of_length_eq_zero (by omega)
      rw [hbefore,hafter,List.nil_append,List.append_nil] at hmiddle
      exact hne hmiddle

theorem tokenFinder_ne_zero {c : Char} (hc : generatedTokenChar c = true) (previous : Option Char) {rest : Str}
    (h : generatedReadonlyTokenPrefix ++ [c] <+: rest) : tokenFinder previous rest ≠ 0 := by
  obtain ⟨more,rfl⟩ := h
  rw [tokenFinder,if_pos (List.isPrefixOf_iff_prefix.mpr ⟨c :: more,by simp⟩)]
  rw [List.append_assoc,List.drop_left,List.singleton_append,List.takeWhile_cons_of_pos hc]
  simp

theorem tokenFinder_eq_zero {text : Str} (h : ¬ ContainsToken text) (previous : Option Char) {rest : Str}
    (hrest : rest <:+ text) : tokenFinder previous rest = 0 := by
  rw [tokenFinder]
  split
  · rename_i hbegins
    obtain ⟨more,rfl⟩ := List.isPrefixOf_iff_prefix.mp hbegins
    rw [List.drop_left]
    cases more with
    | nil => rfl
    | cons c more =>
      have hc : generatedTokenChar c ≠ true := fun hc => h ⟨c,hc,List.IsInfix.trans ⟨[],more,by simp⟩ hrest.isInfix⟩
      rw [List.takeWhile_cons_of_neg hc]
      rfl
  · rfl

theorem apart_token {c : Char} (hc : generatedTokenChar c = true) {new : Str} {first last : Char} {middle : Str}
    (hnew : new = first :: (middle ++ [last])) (hfirst : generatedTokenChar first = false)
    (hlast : generatedTokenChar last = false) (hinner : ¬ generatedReadonlyTokenPrefix <:+: new) :
    Apart (generatedReadonlyTokenPrefix ++ [c]) new := by
  have hchars : ∀ d ∈ generatedReadonlyTokenPrefix ++ [c], generatedTokenChar d = true := by
    intro d hd
    obtain hd | hd := List.mem_append.mp hd
    · have hall : ∀ d ∈ generatedReadonlyTokenPrefix, generatedTokenChar d = true :=
        forall_mem_of_all (by decide)
      exact hall d hd
    · exact List.mem_singleton.mp hd ▸ hc
  refine apart_of_ends hnew (fun h => ?_) (fun h => ?_) fun h => ?_
  · rw [hchars first h] at hfirst
    cases hfirst
  · rw [hchars last h] at hlast
    cases hlast
  · exact hinner ((List.prefix_append _ [c]).isInfix.trans h)

/-! Complete redaction -/

/-- The texts that are put in for secrets and paths. -/
def placeholders : List Str :=
  [redactedText,redactedPath,"<WUD_OUT_FILE>".toList,"<WUD_LOG_DIR>".toList,"<WUD_DB_PATH>".toList,
    "<DOCKER_BASE>".toList,"<HOST_DOCKER_BASE>".toList]

/-- A placeholder in angle brackets. -/
def IsLabel (label : Str) : Prop := label ∈ placeholders ∧ label = '<' :: (label.tail.dropLast ++ ['>'])

/-- Secrets that are long enough, without angle brackets and not part of a placeholder, as no fragment of a URL
among them is. -/
structure PlainSecrets (rules : RedactionRules) (secrets : List Str) : Prop where
  long : ∀ secret ∈ secrets, secret ≠ [] → 4 ≤ secret.length
  unbracketed : ∀ secret ∈ secrets, '<' ∉ secret ∧ '>' ∉ secret
  unlike : ∀ secret ∈ secrets, secret ≠ [] → ∀ placeholder ∈ placeholders, ¬ secret <:+: placeholder
  fragments : ∀ secret ∈ secrets, "redacted".toList ∉ secretUrlFragments rules secret

section
variable {rules : RedactionRules} {settings : RedactionSettings} {extraSecrets : List Str}
  (h : PlainSecrets rules (redactionSecrets settings extraSecrets))
include h

theorem apart_of_redactionValue {value : Str} (hvalue : value ∈ sensitiveRedactionValues rules settings extraSecrets) :
    Apart value redactedText := by
  obtain ⟨-,secret,hsecret,hset,hv⟩ := mem_sensitiveRedactionValues.mp hvalue
  obtain ⟨hopen,hclose⟩ := h.unbracketed secret hsecret
  obtain rfl | hfragment := hv
  · exact apart_redactedText hopen hclose (h.unlike value hsecret hset redactedText (by simp [placeholders]))
  · obtain ⟨hlong,hchars⟩ := fragment_spec hfragment
    have hopen' : '<' ∉ value := fun hc => hopen (hchars _ hc)
    have hclose' : '>' ∉ value := fun hc => hclose (hchars _ hc)
    refine apart_redactedText hopen' hclose' (not_infix_redactedText hlong hopen' hclose' ?_)
    rintro rfl
    exact h.fragments secret hsecret hfragment

theorem not_infix_redacted (text : Str) {value : Str}
    (hvalue : value ∈ sensitiveRedactionValues rules settings extraSecrets) :
    ¬ value <:+: redactSensitiveText rules settings extraSecrets text := by
  intro hoccurs
  have hapart (word : Str) (hword : word ∈ sensitiveRedactionValues rules settings extraSecrets) :
      Apart word redactedText := apart_of_redactionValue h hword
  exact not_infix_substituteWords hapart text value hvalue ((hapart value hvalue).infix_of_substitute hoccurs)

omit h in
theorem not_containsToken_redacted (text : Str) :
    ¬ ContainsToken (redactSensitiveText rules settings extraSecrets text) := by
  rintro ⟨c,hc,hoccurs⟩
  have hapart : Apart (generatedReadonlyTokenPrefix ++ [c]) redactedText :=
    apart_token hc redactedText_eq (by decide) (by decide) (by decide +kernel)
  exact hapart.not_infix_substitute (fun previous _ => tokenFinder_ne_zero hc previous) _ hoccurs

/-- Redacting a second time changes nothing. -/
theorem redact_redacted (text : Str) : redactSensitiveText rules settings extraSecrets
    (redactSensitiveText rules settings extraSecrets text) = redactSensitiveText rules settings extraSecrets text := by
  have hgone (value : Str) (hvalue : value ∈ sensitiveRedactionValues rules settings extraSecrets) :
      ¬ value <:+: redactSensitiveText rules settings extraSecrets text := not_infix_redacted h text hvalue
  rw [redactSensitiveText,substituteWords_eq_self hgone]
  exact substitute_eq_self fun previous rest hrest _ =>
    tokenFinder_eq_zero (not_containsToken_redacted text) previous hrest

theorem secret_mem_values {secret : Str} (hsecret : secret ∈ redactionSecrets settings extraSecrets)
    (hset : secret ≠ []) : secret ∈ sensitiveRedactionValues rules settings extraSecrets :=
  mem_sensitiveRedactionValues.mpr ⟨h.long secret hsecret hset,secret,hsecret,hset,.inl rfl⟩

end

theorem fragment_mem_values {rules : RedactionRules} {settings : RedactionSettings} {extraSecrets : List Str}
    {secret fragment : Str} (hsecret : secret ∈ redactionSecrets settings extraSecrets) (hset : secret ≠ [])
    (hfragment : fragment ∈ secretUrlFragments rules secret) :
    fragment ∈ sensitiveRedactionValues rules settings extraSecrets := by
  have hlong := (fragment_spec hfragment).1
  exact mem_sensitiveRedactionValues.mpr ⟨by omega,secret,hsecret,hset,.inr hfragment⟩

/-! Support bundles -/

theorem mem_foldl_addReplacement {entries replacements : List (Str × Str)} {item : Str × Str}
    (h : item ∈ entries.foldl (fun replacements item => addReplacement replacements item.1 item.2) replacements) :
    item ∈ replacements ∨ item ∈ entries := by
  induction entries generalizing replacements with
  | nil => exact .inl h
  | cons entry entries ih =>
    obtain h | h := ih h
    · have h : item ∈ addReplacement replacements entry.1 entry.2 := h
      unfold addReplacement at h
      split at h
      · exact .inl h
      · obtain h | h := List.mem_append.mp h
        · exact .inl h
        · exact .inr (List.mem_cons.mpr (.inl (List.mem_singleton.mp h)))
    · exact .inr (List.mem_cons_of_mem entry h)

theorem isLabel_of_rootPaths {settings : RedactionSettings} {item : Str × Str} (h : item ∈ rootPaths settings) :
    IsLabel item.2 := by
  obtain rfl | h := List.mem_cons.mp h
  · exact ⟨by simp [placeholders],rfl⟩
  · obtain ⟨path,-,rfl⟩ := Option.map_eq_some_iff.mp (Option.mem_toList.mp h)
    exact ⟨by simp [placeholders],rfl⟩

/-- What paths are replaced by. -/
theorem isLabel_of_replacement {settings : RedactionSettings} {item : Str × Str}
    (h : item ∈ supportBundlePathReplacements settings) : IsLabel item.2 := by
  rw [supportBundlePathReplacements,List.mem_insertionSort] at h
  obtain h | h := mem_foldl_addReplacement h
  · exact absurd h List.not_mem_nil
  · obtain h | h := List.mem_append.mp h
    · obtain h | h := List.mem_append.mp h
      · simp only [exactPaths,List.mem_cons,List.not_mem_nil,or_false] at h
        obtain rfl | rfl | rfl := h
        · exact ⟨by simp [placeholders],rfl⟩
        · exact ⟨by simp [placeholders],rfl⟩
        · exact ⟨by simp [placeholders],rfl⟩
      · exact isLabel_of_rootPaths h
    · obtain ⟨root,hroot,rfl⟩ := List.mem_map.mp h
      exact (isLabel_of_rootPaths hroot : IsLabel root.2)

theorem not_token_of_placeholder {placeholder : Str} (h : placeholder ∈ placeholders) :
    ¬ generatedReadonlyTokenPrefix <:+: placeholder := by
  have hall : ∀ placeholder ∈ placeholders, ¬ generatedReadonlyTokenPrefix <:+: placeholder := by decide +kernel
  exact hall placeholder h

section
variable {rules : RedactionRules} {settings : RedactionSettings} {extraSecrets : List Str} {word : Str}

/-- What is apart from the placeholders of paths does not arise where paths are replaced. -/
theorem infix_of_sanitized (hlabels : ∀ label, IsLabel label → Apart word label) (hpath : Apart word redactedPath)
    {text : Str} (h : word <:+: sanitizeSupportBundleText rules settings extraSecrets text) :
    word <:+: redactSensitiveText rules settings extraSecrets text := by
  have hfold (items : List (Str × Str)) (hitems : ∀ item ∈ items, IsLabel item.2) (redacted : Str)
      (h : word <:+: items.foldl (fun redacted item => substitute (wordFinder item.1) item.2 redacted) redacted) :
      word <:+: redacted := by
    induction items generalizing redacted with
    | nil => exact h
    | cons item items ih =>
      have hrest := ih (fun other hother => hitems other (List.mem_cons_of_mem item hother)) _ h
      exact (hlabels _ (hitems item List.mem_cons_self)).infix_of_substitute hrest
  exact hfold _ (fun item hitem => isLabel_of_replacement hitem) _ (hpath.infix_of_substitute h)

theorem not_containsToken_sanitized (text : Str) :
    ¬ ContainsToken (sanitizeSupportBundleText rules settings extraSecrets text) := by
  rintro ⟨c,hc,hoccurs⟩
  refine not_containsToken_redacted text ⟨c,hc,infix_of_sanitized (fun label hlabel => ?_) ?_ hoccurs⟩
  · exact apart_token hc hlabel.2 (by decide) (by decide) (not_token_of_placeholder hlabel.1)
  · have hpath : redactedPath = '[' :: ("REDACTED_PATH".toList ++ [']']) := rfl
    exact apart_token hc hpath (by decide) (by decide) (not_token_of_placeholder (by simp [placeholders]))

theorem not_infix_sanitized (h : PlainSecrets rules (redactionSecrets settings extraSecrets)) (text : Str)
    {secret : Str} (hsecret : secret ∈ redactionSecrets settings extraSecrets) (hset : secret ≠ [])
    (hpath : Apart secret redactedPath) :
    ¬ secret <:+: sanitizeSupportBundleText rules settings extraSecrets text := by
  obtain ⟨hopen,hclose⟩ := h.unbracketed secret hsecret
  intro hoccurs
  refine not_infix_redacted h text (secret_mem_values h hsecret hset) (infix_of_sanitized (fun label hlabel => ?_) hpath
    hoccurs)
  exact apart_of_ends hlabel.2 hopen hclose (h.unlike secret hsecret hset label hlabel.1)

end

mutual

/-- The texts of a value, without the keys of its mappings. -/
def Json.texts : Json → List Str
  | .string value => [value]
  | .array values => textsOfElements values
  | .object fields => textsOfFields fields
  | _ => []

def Json.textsOfElements : List Json → List Str
  | [] => []
  | value :: rest => value.texts ++ Json.textsOfElements rest

def Json.textsOfFields : List (Str × Json) → List Str
  | [] => []
  | (_,value) :: rest => value.texts ++ Json.textsOfFields rest

end

section
variable (rules : RedactionRules) (settings : RedactionSettings) (extraSecrets : List Str)

mutual

/-- Every text of a sanitized value is a sanitized text. -/
theorem texts_sanitized (value : Json) :
    (sanitizeSupportBundleValueWithSecrets rules settings extraSecrets value).texts =
      value.texts.map (sanitizeSupportBundleText rules settings extraSecrets) := by
  cases value with
  | null => rfl
  | bool value => rfl
  | number value => rfl
  | float text => rfl
  | string value => rfl
  | array values =>
    rw [sanitizeSupportBundleValueWithSecrets,Json.texts,Json.texts,texts_sanitizedElements values]
  | object fields =>
    rw [sanitizeSupportBundleValueWithSecrets,Json.texts,Json.texts,texts_sanitizedFields fields]

theorem texts_sanitizedElements (values : List Json) :
    Json.textsOfElements (sanitizeElements rules settings extraSecrets values) =
      (Json.textsOfElements values).map (sanitizeSupportBundleText rules settings extraSecrets) := by
  cases values with
  | nil => rfl
  | cons value rest =>
    rw [sanitizeElements,Json.textsOfElements,Json.textsOfElements,List.map_append,texts_sanitized value,
      texts_sanitizedElements rest]

theorem texts_sanitizedFields (fields : List (Str × Json)) :
    Json.textsOfFields (sanitizeFields rules settings extraSecrets fields) =
      (Json.textsOfFields fields).map (sanitizeSupportBundleText rules settings extraSecrets) := by
  cases fields with
  | nil => rfl
  | cons field rest =>
    obtain ⟨key,item⟩ := field
    rw [sanitizeFields,Json.textsOfFields,Json.textsOfFields,List.map_append,texts_sanitized item,
      texts_sanitizedFields rest]

end

/-- A redacted text holds no secret, no fragment of one and no token, and is not changed by redacting it again. No text
of a sanitized value holds a token, or a secret that is apart from the placeholder of unknown paths. -/
theorem redaction_complete (h : PlainSecrets rules (redactionSecrets settings extraSecrets)) :
    (∀ text, ¬ ContainsToken (redactSensitiveText rules settings extraSecrets text) ∧
      redactSensitiveText rules settings extraSecrets (redactSensitiveText rules settings extraSecrets text) =
        redactSensitiveText rules settings extraSecrets text ∧
      ∀ secret ∈ redactionSecrets settings extraSecrets, secret ≠ [] →
        ¬ secret <:+: redactSensitiveText rules settings extraSecrets text ∧
        ∀ fragment ∈ secretUrlFragments rules secret,
          ¬ fragment <:+: redactSensitiveText rules settings extraSecrets text) ∧
    ∀ value, ∀ text ∈ (sanitizeSupportBundleValueWithSecrets rules settings extraSecrets value).texts,
      ¬ ContainsToken text ∧ ∀ secret ∈ redactionSecrets settings extraSecrets, secret ≠ [] →
        Apart secret redactedPath → ¬ secret <:+: text := by
  refine ⟨fun text => ⟨not_containsToken_redacted text,redact_redacted h text,fun secret hsecret hset => ⟨?_,?_⟩⟩,
    fun value text htext => ?_⟩
  · exact not_infix_redacted h text (secret_mem_values h hsecret hset)
  · exact fun fragment hfragment => not_infix_redacted h text (fragment_mem_values hsecret hset hfragment)
  · rw [texts_sanitized] at htext
    obtain ⟨source,-,rfl⟩ := List.mem_map.mp htext
    exact ⟨not_containsToken_sanitized source,
      fun secret hsecret hset hpath => not_infix_sanitized h source hsecret hset hpath⟩

end

namespace Example

def plainRedaction : RedactionRules where
  wordChar c := c.isAlphanum || c = '_'
  refusedNetloc _ := false

def redactionOf (authToken : String) (commandEnv : List (Str × Str)) : RedactionSettings where
  authToken := authToken.toList
  commandEnv := commandEnv
  wudOutFile := "/srv/images.todo".toList
  logDir := "/srv/logs".toList
  dbPath := "/srv/state.db".toList
  dockerBase := "/srv".toList

/-- A token, and a webhook with a fragment. -/
def exampleSettings : RedactionSettings :=
  redactionOf "example-token"
    [("DISCORD_WEBHOOK".toList,"https://discord.test/secret-webhook-fragment".toList)]

theorem plainSecrets_example : PlainSecrets plainRedaction (redactionSecrets exampleSettings []) :=
  ⟨by decide +kernel,by decide +kernel,by decide +kernel,by decide +kernel⟩

def leakyText : Str := "example-token secret-webhook-fragment wudup_ro_x1 /private/path".toList

theorem example_redacted :
    redactSensitiveText plainRedaction exampleSettings [] leakyText =
      "<redacted> <redacted> <redacted> /private/path".toList ∧
    redactSensitiveText plainRedaction exampleSettings [] (redactSensitiveText plainRedaction exampleSettings []
      leakyText) = redactSensitiveText plainRedaction exampleSettings [] leakyText ∧
    ∀ text ∈ (sanitizeSupportBundleValueWithSecrets plainRedaction exampleSettings []
        (.object [("details".toList,.array [.string leakyText])])).texts,
      ¬ ContainsToken text ∧ ∀ secret ∈ redactionSecrets exampleSettings [], secret ≠ [] →
        Apart secret redactedPath → ¬ secret <:+: text :=
  ⟨by decide +kernel,((redaction_complete plainRedaction exampleSettings [] plainSecrets_example).1 leakyText).2.1,
    (redaction_complete plainRedaction exampleSettings [] plainSecrets_example).2 _⟩

/-- The key of a mapping is copied with a secret in it, the placeholder is the fragment of a URL, and the placeholder
of a path completes a secret. -/
theorem redaction_incomplete :
    sanitizeSupportBundleValueWithSecrets plainRedaction exampleSettings []
      (.object [("example-token".toList,.null)]) = .object [("example-token".toList,.null)] ∧
    ("redacted".toList ∈ secretUrlFragments plainRedaction "https://x.y/redacted".toList ∧
      redactSensitiveText plainRedaction (redactionOf "https://x.y/redacted" []) [] "https://x.y/redacted".toList =
        "<<redacted>>".toList ∧
      redactSensitiveText plainRedaction (redactionOf "https://x.y/redacted" []) [] "<<redacted>>".toList =
        "<<<redacted>>>".toList) ∧
    ((∀ placeholder ∈ placeholders, ¬ "at [R".toList <:+: placeholder) ∧
      sanitizeSupportBundleText plainRedaction (redactionOf "at [R" []) [] "at /etc/x".toList =
        "at [REDACTED_PATH]".toList ∧
      "at [R".toList <:+: "at [REDACTED_PATH]".toList) :=
  ⟨rfl,by decide +kernel,by decide +kernel⟩

end Example
end Wudup

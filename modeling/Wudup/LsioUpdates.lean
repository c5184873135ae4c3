import Wudup.Json
import Wudup.Library.Unicode
import Wudup.TagStreams

/-! LinuxServer.io tags: their parts, and what an update from one tag to another changes. -/
namespace Wudup
open Library

inductive LsioTagKind where
  | build
  | version
  | branch
  | pseudoSemver
  | unknown
  deriving DecidableEq, Repr

inductive LsioChangeType where
  | upstreamUpdate
  | imageRebuild
  | unknown
  deriving DecidableEq, Repr

structure LsioTagParts where
  raw : Str := []
  kind : LsioTagKind := .unknown
  arch : Str := []
  branch : Str := []
  upstreamVersion : Str := []
  buildSuffix : Str := []
  deriving DecidableEq, Repr

structure LsioUpdateClassification where
  changeType : LsioChangeType := .unknown
  reason : Str := "ambiguous-tags".toList
  current : LsioTagParts := {}
  target : LsioTagParts := {}
  deriving DecidableEq, Repr

def archPrefixes : List Str :=
  ["amd64".toList,"arm32v6".toList,"arm32v7".toList,"arm64v8".toList,"ppc64le".toList,"riscv64".toList,
    "s390x".toList]

/-- A version starts with two numbers joined by a dot, after a `v` or not. -/
def versionStart (text : Str) : Bool :=
  let number := if text.head? = some 'v' || text.head? = some 'V' then text.tail else text
  (leadingNumber number).any fun (_,rest) => ((readDot rest).bind leadingNumber).isSome

def buildSeparator (c : Char) : Bool := c = '.' || c = '_' || c = '-'

/-- The text of a build: `ls` and a number, then separated groups of letters and digits. -/
def isLsioBuild (text : Str) : Bool :=
  match text.splitOnP buildSeparator with
  | [] => false
  | first :: groups =>
    (first.take 2).map Char.toLower = "ls".toList && first.drop 2 ≠ [] && (first.drop 2).all Char.isDigit &&
      groups.all fun group => group ≠ [] && group.all Char.isAlphanum

/-- What precedes the leftmost `-` that a build follows up to the end of the text, and the build. -/
def lsioBuildSuffix : Str → Option (Str × Str)
  | [] => none
  | c :: rest =>
    if c = '-' && isLsioBuild rest then some ([],rest)
    else (lsioBuildSuffix rest).map fun (body,build) => (c :: body,build)

def joinTokens (tokens : List Str) : Str := ['-'].intercalate tokens

variable (rules : CaseRules)

def splitArch : List Str → Str × List Str
  | [] => ([],[])
  | token :: tokens => if archPrefixes.contains (rules.lower token) then (token,tokens) else ([],token :: tokens)

def versionMarker : Str := "version".toList

/-- The place of the first token with a value, whatever its letter case. -/
def tokenIndex (tokens : List Str) (value : Str) : Option ℕ := tokens.findIdx? fun token => rules.lower token = value

def firstVersionIndex (tokens : List Str) : Option ℕ := tokens.findIdx? versionStart

/-- The parts of a tag with a `version` token. -/
def versionTagParts (raw arch : Str) (tokens : List Str) (marker : ℕ) : LsioTagParts :=
  let upstream := joinTokens (tokens.drop (marker+1))
  if upstream ≠ [] && versionStart upstream then
    { raw := raw, kind := .version, arch := arch, branch := joinTokens (tokens.take marker),
      upstreamVersion := upstream }
  else { raw := raw, arch := arch }

/-- The parts of a tag that ends in a build. -/
def buildTagParts (raw body build : Str) : LsioTagParts :=
  let (arch,tokens) := splitArch rules (body.splitOn '-')
  match firstVersionIndex tokens with
  | some i =>
    { raw := raw, kind := .build, arch := arch, branch := joinTokens (tokens.take i),
      upstreamVersion := joinTokens (tokens.drop i), buildSuffix := build }
  | none => { raw := raw, arch := arch, buildSuffix := build }

/-- The parts of a tag with neither. -/
def plainTagParts (raw arch : Str) (tokens : List Str) : LsioTagParts :=
  if firstVersionIndex tokens = some 0 then
    { raw := raw, kind := .pseudoSemver, arch := arch, upstreamVersion := raw }
  else { raw := raw, kind := .branch, arch := arch, branch := joinTokens tokens }

def parseLsioTag (tag : Str) : LsioTagParts :=
  let raw := strip tag
  if raw = [] then {}
  else
    let (arch,tokens) := splitArch rules (raw.splitOn '-')
    match tokenIndex rules tokens versionMarker with
    | some marker => versionTagParts raw arch tokens marker
    | none =>
      match lsioBuildSuffix raw with
      | some (body,build) => if body ≠ [] then buildTagParts rules raw body build else plainTagParts raw arch tokens
      | none => plainTagParts raw arch tokens

def normalizeLsioVersion (value : Str) : Str :=
  match rules.lower (strip value) with
  | 'v' :: c :: rest => if isDigit c then c :: rest else 'v' :: c :: rest
  | normalized => normalized

/-- The kinds of tag that name an upstream version. -/
def trustedKind : LsioTagKind → Bool
  | .build | .version | .pseudoSemver => true
  | .branch | .unknown => false

def trustedUpstream (parts : LsioTagParts) : Str :=
  if trustedKind parts.kind then normalizeLsioVersion rules parts.upstreamVersion else []

def isLsioRepo (value : Str) : Bool :=
  ((rules.lower value).splitOn '/').dropLast.any fun part =>
    part = "linuxserver".toList || part = "linuxserver.io".toList

def classifyLsioUpdate (imageRepo currentTag targetTag lsioTag upstreamVersion : Str) : LsioUpdateClassification :=
  let current := parseLsioTag rules currentTag
  let target := parseLsioTag rules (if targetTag ≠ [] then targetTag else lsioTag)
  if !isLsioRepo rules imageRepo then { reason := "non-lsio-image".toList, current := current, target := target }
  else
    let currentUpstream := trustedUpstream rules current
    let targetUpstream :=
      if trustedUpstream rules target ≠ [] then trustedUpstream rules target
      else normalizeLsioVersion rules upstreamVersion
    if currentUpstream = [] || targetUpstream = [] then { current := current, target := target }
    else if current.arch ≠ target.arch || current.branch ≠ target.branch then
      { reason := "branch-or-arch-mismatch".toList, current := current, target := target }
    else if currentUpstream ≠ targetUpstream then
      { changeType := .upstreamUpdate, reason := "upstream-version-changed".toList, current := current,
        target := target }
    else if trustedKind current.kind && (trustedKind target.kind || upstreamVersion ≠ []) then
      { changeType := .imageRebuild, reason := "same-upstream-image-layer-changed".toList, current := current,
        target := target }
    else { current := current, target := target }

/-! What a version starts with. -/

/-- The character a version starts with. -/
def VersionChar (c : Char) : Prop := c.isDigit = true ∨ c = 'v' ∨ c = 'V'

theorem toLower_of_digit {c : Char} (h : c.isDigit = true) : c.toLower = c := by
  obtain ⟨hlow,hhigh⟩ := ascii_range h
  unfold Char.toLower
  rw [dif_neg]
  rintro ⟨hupper,-⟩
  have : 65 ≤ c.toNat := hupper
  omega

namespace VersionChar
variable {c : Char}

theorem ascii (h : VersionChar c) : c.toNat < 128 := by
  obtain h | rfl | rfl := h
  · have := (ascii_range h).2
    omega
  · decide
  · decide

theorem not_whitespace (h : VersionChar c) : c ∉ whitespace := by
  have hdigits : ∀ w ∈ whitespace, w.isDigit = false := forall_mem_of_all (by decide)
  obtain h | rfl | rfl := h
  · intro hw
    rw [hdigits c hw] at h
    cases h
  · decide
  · decide

/-- A version starts with none of the letters that a prefix or a build starts with. -/
theorem toLower_ne {d : Char} (h : VersionChar c) (hd : d.isDigit = false) (hv : d ≠ 'v') : c.toLower ≠ d := by
  obtain h | rfl | rfl := h
  · rintro rfl
    rw [toLower_of_digit h,h] at hd
    cases hd
  · exact hv.symm
  · exact hv.symm

theorem not_separator (h : VersionChar c) : buildSeparator c = false := by
  obtain h | rfl | rfl := h
  · simp only [buildSeparator,Bool.or_eq_false_iff,decide_eq_false_iff_not]
    refine ⟨⟨?_,?_⟩,?_⟩ <;> rintro rfl <;> cases h
  · rfl
  · rfl

theorem ne_dash (h : VersionChar c) : c ≠ '-' := by
  rintro rfl
  cases h.not_separator

end VersionChar

/-- The text starts as a version does. -/
def VersionHead (text : Str) : Prop := ∃ c, text.head? = some c ∧ VersionChar c

/-- A lead that may stand before a version, and the version after it. -/
theorem exists_version_lead (text : Str) : ∃ lead body : Str, (lead = [] ∨ lead = ['v'] ∨ lead = ['V']) ∧
    text = lead ++ body ∧ (if text.head? = some 'v' || text.head? = some 'V' then text.tail else text) = body := by
  split
  · rename_i hv
    rw [Bool.or_eq_true,decide_eq_true_eq,decide_eq_true_eq] at hv
    obtain hv | hv := hv
    · obtain ⟨rest,rfl⟩ := List.head?_eq_some_iff.mp hv
      exact ⟨['v'],rest,.inr (.inl rfl),rfl,rfl⟩
    · obtain ⟨rest,rfl⟩ := List.head?_eq_some_iff.mp hv
      exact ⟨['V'],rest,.inr (.inr rfl),rfl,rfl⟩
  · exact ⟨[],text,.inl rfl,rfl,rfl⟩

theorem drop_version_lead {lead body : Str} (hlead : lead = [] ∨ lead = ['v'] ∨ lead = ['V'])
    (hb : body.head?.any Char.isDigit = true) :
    (if (lead ++ body).head? = some 'v' || (lead ++ body).head? = some 'V' then (lead ++ body).tail
      else lead ++ body) = body := by
  obtain ⟨c,hc,hdigit⟩ := (Option.any_eq_true _ _).mp hb
  have hv : c ≠ 'v' ∧ c ≠ 'V' := by
    constructor <;> rintro rfl <;> cases hdigit
  obtain rfl | rfl | rfl := hlead
  · simp [hc,hv]
  · simp
  · simp

/-- A number, a dot and a digit. -/
def DottedStart (text : Str) : Prop := ∃ major digit rest,
  major ∈ Regex.numbers ∧ digit.isDigit = true ∧ text = major ++ '.' :: digit :: rest

theorem dottedStart_iff {text : Str} : ((leadingNumber text).any fun (_,rest) =>
    ((readDot rest).bind leadingNumber).isSome) = true ↔ DottedStart text := by
  constructor
  · intro h
    obtain ⟨⟨major,after⟩,hmajor,hafter⟩ := (Option.any_eq_true _ _).mp h
    obtain ⟨⟨minor,rest⟩,hminor⟩ := Option.isSome_iff_exists.mp hafter
    obtain ⟨afterDot,hdot,hminor⟩ := Option.bind_eq_some_iff.mp hminor
    obtain ⟨rfl,hm,-⟩ := leadingNumber_eq_some.mp hmajor
    obtain rfl := readDot_eq_some.mp hdot
    obtain ⟨rfl,⟨hne,hd⟩,-⟩ := leadingNumber_eq_some.mp hminor
    obtain ⟨digit,digits,rfl⟩ := List.exists_cons_of_ne_nil hne
    exact ⟨major,digit,digits ++ rest,hm,hd digit (by simp),rfl⟩
  · intro h
    obtain ⟨major,digit,rest,hm,hd,rfl⟩ := h
    have hmajor : leadingNumber (major ++ '.' :: digit :: rest) = some (major,'.' :: digit :: rest) :=
      leadingNumber_eq_some.mpr ⟨rfl,hm,ends_cons.mpr rfl⟩
    rw [hmajor]
    simp [readDot,leadingNumber,hd]

theorem versionStart_iff {text : Str} : versionStart text = true ↔
    ∃ lead number, (lead = [] ∨ lead = ['v'] ∨ lead = ['V']) ∧ DottedStart number ∧ text = lead ++ number := by
  rw [versionStart,dottedStart_iff]
  constructor
  · intro h
    obtain ⟨lead,body,hlead,htext,hread⟩ := exists_version_lead text
    rw [hread] at h
    exact ⟨lead,body,hlead,h,htext⟩
  · intro h
    obtain ⟨lead,number,hlead,hn,rfl⟩ := h
    have hdigit : number.head?.any Char.isDigit = true := by
      obtain ⟨major,digit,rest,⟨hne,hm⟩,-,rfl⟩ := hn
      obtain ⟨c,digits,rfl⟩ := List.exists_cons_of_ne_nil hne
      exact hm c (by simp)
    rw [drop_version_lead hlead hdigit]
    exact hn

/-- A version starts without a dash, whatever comes after it. -/
theorem versionStart_split {text : Str} (h : versionStart text = true) :
    ∃ start rest, text = start ++ rest ∧ '-' ∉ start ∧ VersionHead start ∧
      ∀ other, versionStart (start ++ other) = true := by
  obtain ⟨lead,number,hlead,⟨major,digit,rest,hm,hd,rfl⟩,rfl⟩ := versionStart_iff.mp h
  have hstart : '-' ∉ lead ++ (major ++ ['.',digit]) := by
    have hmajor : '-' ∉ major := fun h => by cases hm.2 _ h
    have hdigit : '-' ≠ digit := by
      rintro rfl
      cases hd
    obtain rfl | rfl | rfl := hlead <;> simp [hmajor,hdigit]
  have hhead : VersionHead (lead ++ (major ++ ['.',digit])) := by
    obtain ⟨hne,hdigits⟩ := hm
    obtain ⟨c,digits,rfl⟩ := List.exists_cons_of_ne_nil hne
    obtain rfl | rfl | rfl := hlead
    · exact ⟨c,rfl,.inl (hdigits c (by simp))⟩
    · exact ⟨'v',rfl,.inr (.inl rfl)⟩
    · exact ⟨'V',rfl,.inr (.inr rfl)⟩
  refine ⟨lead ++ (major ++ ['.',digit]),rest,by simp,hstart,hhead,?_⟩
  intro other
  exact versionStart_iff.mpr ⟨lead,_,hlead,⟨major,digit,other,hm,hd,rfl⟩,by simp⟩

theorem VersionHead.append {text : Str} (h : VersionHead text) (rest : Str) : VersionHead (text ++ rest) := by
  obtain ⟨c,hc,hv⟩ := h
  exact ⟨c,by simp [List.head?_append,hc],hv⟩

theorem versionHead_of_start {text : Str} (h : versionStart text = true) : VersionHead text := by
  obtain ⟨start,rest,rfl,-,hhead,-⟩ := versionStart_split h
  exact hhead.append rest

/-! Tokens. -/

theorem splitOn_append_of_not_mem {c : Char} {text rest : Str} (h : c ∉ text) :
    (text ++ rest).splitOn c = (rest.splitOn c).modifyHead (text ++ ·) := by
  induction text with
  | nil =>
    obtain ⟨first,more,hsplit⟩ := List.exists_cons_of_ne_nil (List.splitOn_ne_nil c rest)
    simp [hsplit]
  | cons d text ih =>
    have hd : d ≠ c := fun hd => h (by simp [hd])
    obtain ⟨first,more,hsplit⟩ := List.exists_cons_of_ne_nil (List.splitOn_ne_nil c rest)
    rw [List.cons_append,List.splitOn_cons_eq_if_modifyHead,if_neg (by simpa using hd),
      ih fun hc => h (List.mem_cons_of_mem d hc),hsplit]
    rfl

/-- A text that starts as a version does has its start in its first token. -/
theorem VersionHead.exists_token {text : Str} (h : VersionHead text) :
    ∃ c token tokens, VersionChar c ∧ text.splitOn '-' = (c :: token) :: tokens := by
  obtain ⟨c,hc,hv⟩ := h
  obtain ⟨rest,rfl⟩ := List.head?_eq_some_iff.mp hc
  obtain ⟨first,more,hsplit⟩ := List.exists_cons_of_ne_nil (List.splitOn_ne_nil '-' rest)
  have hnot : '-' ∉ [c] := by simpa using hv.ne_dash.symm
  refine ⟨c,first,more,hv,?_⟩
  have hfirst : ([c] ++ rest).splitOn '-' = _ := splitOn_append_of_not_mem hnot
  rw [hsplit] at hfirst
  exact hfirst

theorem firstVersionIndex_of_start {text : Str} (h : versionStart text = true) :
    firstVersionIndex (text.splitOn '-') = some 0 := by
  obtain ⟨start,rest,rfl,hdash,-,hother⟩ := versionStart_split h
  obtain ⟨first,more,hsplit⟩ := List.exists_cons_of_ne_nil (List.splitOn_ne_nil '-' rest)
  rw [splitOn_append_of_not_mem hdash,hsplit,List.modifyHead_cons,firstVersionIndex,List.findIdx?_cons,
    if_pos (hother first)]

theorem length_joinTokens_drop (tokens : List Str) (n : ℕ) :
    (joinTokens (tokens.drop n)).length ≤ (joinTokens tokens).length := by
  induction tokens generalizing n with
  | nil => simp
  | cons token tokens ih =>
    cases n with
    | zero => rfl
    | succ n =>
      rw [List.drop_succ_cons]
      refine (ih n).trans ?_
      by_cases hne : tokens = []
      · simp [hne,joinTokens]
      · rw [joinTokens,joinTokens,List.intercalate_cons_of_ne_nil hne]
        simp only [List.length_append]
        omega

/-! The build at the end of a tag. -/

theorem isLsioBuild_left {left right : Str} (h : isLsioBuild (left ++ '-' :: right) = true) :
    isLsioBuild left = true := by
  obtain ⟨first,groups,hsplit⟩ := List.exists_cons_of_ne_nil (List.splitOnP_ne_nil buildSeparator left)
  rw [isLsioBuild,List.splitOnP_append_cons left right (by rfl),hsplit] at h
  rw [isLsioBuild,hsplit]
  simp only [List.cons_append,Bool.and_eq_true,List.all_append] at h ⊢
  exact ⟨h.1,h.2.1⟩

theorem isLsioBuild_numbered {n : Str} (hn : n ∈ Regex.numbers) : isLsioBuild ('l' :: 's' :: n) = true := by
  have hplain : ∀ c ∈ 'l' :: 's' :: n, buildSeparator c = false := by
    intro c hc
    simp only [List.mem_cons] at hc
    obtain rfl | rfl | hc := hc
    · rfl
    · rfl
    · exact VersionChar.not_separator (.inl (hn.2 c hc))
  rw [isLsioBuild,List.splitOnP_eq_singleton hplain]
  simpa [Regex.mem_numbers] using hn

theorem not_isLsioBuild {text : Str} (h : VersionHead text) : isLsioBuild text = false := by
  obtain ⟨c,hc,hv⟩ := h
  obtain ⟨rest,rfl⟩ := List.head?_eq_some_iff.mp hc
  obtain ⟨first,groups,hsplit⟩ := List.exists_cons_of_ne_nil (List.splitOnP_ne_nil buildSeparator rest)
  have hl : c.toLower ≠ 'l' := hv.toLower_ne rfl (by decide)
  rw [isLsioBuild,List.splitOnP_cons_eq_if_modifyHead,if_neg (by simp [hv.not_separator]),hsplit]
  simp [hl]

theorem lsioBuildSuffix_append {text build : Str} (h : lsioBuildSuffix text = none) (hb : isLsioBuild build = true) :
    lsioBuildSuffix (text ++ '-' :: build) = some (text,build) := by
  induction text with
  | nil => simp [lsioBuildSuffix,hb]
  | cons c text ih =>
    rw [lsioBuildSuffix] at h
    split at h
    · cases h
    · rename_i hnot
      have hlater : ¬ (c = '-' && isLsioBuild (text ++ '-' :: build)) = true := by
        intro hbuild
        rw [Bool.and_eq_true] at hbuild
        exact hnot (Bool.and_eq_true _ _ ▸ ⟨hbuild.1,isLsioBuild_left hbuild.2⟩)
      rw [List.cons_append,lsioBuildSuffix,if_neg hlater,ih (Option.map_eq_none_iff.mp h)]
      rfl

/-- The build of a tag is sought in what follows its prefix. -/
theorem lsioBuildSuffix_prefixed {arch text : Str} (ha : '-' ∉ arch) (h : isLsioBuild text = false) :
    lsioBuildSuffix (arch ++ '-' :: text) =
      (lsioBuildSuffix text).map fun (body,build) => (arch ++ '-' :: body,build) := by
  induction arch with
  | nil => simp [lsioBuildSuffix,h]
  | cons c arch ih =>
    have hc : c ≠ '-' := fun hc => ha (by simp [hc])
    rw [List.cons_append,lsioBuildSuffix,if_neg (by simp [hc]),ih fun hd => ha (List.mem_cons_of_mem c hd),
      Option.map_map]
    rfl

theorem eq_of_lsioBuildSuffix {text body build : Str} (h : lsioBuildSuffix text = some (body,build)) :
    text = body ++ '-' :: build := by
  induction text generalizing body with
  | nil => cases h
  | cons c text ih =>
    rw [lsioBuildSuffix] at h
    split at h
    · rename_i hc
      rw [Bool.and_eq_true,decide_eq_true_eq] at hc
      cases h
      rw [hc.1]
      rfl
    · obtain ⟨⟨rest,found⟩,hrest,hsome⟩ := Option.map_eq_some_iff.mp h
      cases hsome
      rw [ih hrest]
      rfl

theorem VersionHead.of_body {text body build : Str} (h : VersionHead text)
    (hb : lsioBuildSuffix text = some (body,build)) : VersionHead body := by
  obtain ⟨c,hc,hv⟩ := h
  rw [eq_of_lsioBuildSuffix hb] at hc
  cases body with
  | nil =>
    obtain rfl : '-' = c := by simpa using hc
    exact absurd rfl hv.ne_dash
  | cons d body =>
    obtain rfl : d = c := by simpa using hc
    exact ⟨d,rfl,hv⟩

/-! Letter case and architectures. -/

variable {rules}

/-- Lower case as it is for ASCII text, also where other characters follow. -/
structure AsciiCase (rules : CaseRules) : Prop where
  lower : ∀ text, (∀ c ∈ text, c.toNat < 128) → rules.lower text = text.map Char.toLower
  head : ∀ c text, c.toNat < 128 → (rules.lower (c :: text)).head? = some c.toLower

theorem asciiCase_plainCase : AsciiCase plainCase where
  lower := fun _ _ => rfl
  head := fun _ _ _ => rfl

/-- An architecture prefix in any letter case. -/
structure ArchPrefix (rules : CaseRules) (arch : Str) : Prop where
  ascii : ∀ c ∈ arch, c.toNat < 128
  known : rules.lower arch ∈ archPrefixes

theorem ArchPrefix.map_mem {arch : Str} (h : ArchPrefix rules arch) (hr : AsciiCase rules) :
    arch.map Char.toLower ∈ archPrefixes := by
  rw [← hr.lower arch h.ascii]
  exact h.known

theorem ArchPrefix.not_mem {arch : Str} (h : ArchPrefix rules arch) (hr : AsciiCase rules) {c : Char}
    (hc : ∀ known ∈ archPrefixes, c.toLower ∉ known) : c ∉ arch :=
  fun hmem => hc _ (h.map_mem hr) (List.mem_map_of_mem hmem)

theorem ArchPrefix.dash_not_mem {arch : Str} (h : ArchPrefix rules arch) (hr : AsciiCase rules) : '-' ∉ arch :=
  h.not_mem hr (by decide)

theorem head_archPrefixes : ∀ known ∈ archPrefixes, ∃ c rest, known = c :: rest ∧ c.isDigit = false ∧ c ≠ 'v' := by
  intro known h
  have hheads : ∀ known ∈ archPrefixes, known.head?.any (fun c => !c.isDigit && c ≠ 'v') = true := by decide
  obtain ⟨c,hc,hother⟩ := (Option.any_eq_true _ _).mp (hheads known h)
  obtain ⟨rest,rfl⟩ := List.head?_eq_some_iff.mp hc
  exact ⟨c,rest,rfl,by simpa using hother⟩

theorem ArchPrefix.exists_head {arch : Str} (h : ArchPrefix rules arch) (hr : AsciiCase rules) :
    ∃ c, arch.head? = some c ∧ c ∉ whitespace ∧ ¬ VersionChar c := by
  obtain ⟨d,known,hknown,hd,hv⟩ := head_archPrefixes _ (h.map_mem hr)
  obtain ⟨c,rest,rfl,hc,-⟩ := List.map_eq_cons_iff.mp hknown
  refine ⟨c,rfl,?_,?_⟩
  · intro hw
    have hblank : ∀ w ∈ whitespace, ∀ known ∈ archPrefixes, w.toLower ∉ known :=
      forall_mem_of_all (by decide)
    exact h.not_mem hr (hblank c hw) List.mem_cons_self
  · exact fun hc' => hc'.toLower_ne hd hv hc

theorem splitArch_prefixed {arch : Str} (h : ArchPrefix rules arch) (tokens : List Str) :
    splitArch rules (arch :: tokens) = (arch,tokens) := by
  rw [splitArch,if_pos (by simpa using h.known)]

/-- No architecture is read where a version starts. -/
theorem splitArch_of_versionHead (hr : AsciiCase rules) {text : Str} (h : VersionHead text) :
    splitArch rules (text.splitOn '-') = ([],text.splitOn '-') := by
  obtain ⟨c,token,tokens,hv,hsplit⟩ := h.exists_token
  rw [hsplit,splitArch,if_neg]
  intro hknown
  obtain ⟨d,rest,heq,hd,hnotv⟩ := head_archPrefixes _ (by simpa using hknown)
  have hhead := hr.head c token hv.ascii
  rw [heq] at hhead
  exact hv.toLower_ne hd hnotv (by simpa using hhead.symm)

/-! The branches of the reading. -/

theorem parse_marked {tag raw arch : Str} {tokens : List Str} {marker : ℕ} (hraw : strip tag = raw) (hne : raw ≠ [])
    (hs : splitArch rules (raw.splitOn '-') = (arch,tokens))
    (hm : tokenIndex rules tokens versionMarker = some marker) :
    parseLsioTag rules tag = versionTagParts raw arch tokens marker := by
  simp only [parseLsioTag,hraw,hne,if_false,hs,hm]

theorem parse_built {tag raw arch body build : Str} {tokens : List Str} (hraw : strip tag = raw) (hne : raw ≠ [])
    (hs : splitArch rules (raw.splitOn '-') = (arch,tokens)) (hm : tokenIndex rules tokens versionMarker = none)
    (hb : lsioBuildSuffix raw = some (body,build)) (hbody : body ≠ []) :
    parseLsioTag rules tag = buildTagParts rules raw body build := by
  simp only [parseLsioTag,hraw,hne,if_false,hs,hm,hb,if_pos hbody]

theorem parse_plain {tag raw arch : Str} {tokens : List Str} (hraw : strip tag = raw) (hne : raw ≠ [])
    (hs : splitArch rules (raw.splitOn '-') = (arch,tokens)) (hm : tokenIndex rules tokens versionMarker = none)
    (hb : lsioBuildSuffix raw = none) : parseLsioTag rules tag = plainTagParts raw arch tokens := by
  simp only [parseLsioTag,hraw,hne,if_false,hs,hm,hb]

theorem VersionHead.ne_nil {text : Str} (h : VersionHead text) : text ≠ [] := by
  rintro rfl
  obtain ⟨c,hc,-⟩ := h
  cases hc

theorem VersionHead.strip {text : Str} (h : VersionHead text) : VersionHead (strip text) := by
  obtain ⟨c,hc,hv⟩ := h
  exact ⟨c,head?_stripChars hc hv.not_whitespace,hv⟩

theorem strip_prefixed {arch text : Str} {c : Char} (ha : arch.head? = some c) (hc : c ∉ whitespace)
    (ht : VersionHead text) : strip (arch ++ '-' :: text) = arch ++ '-' :: strip text := by
  obtain ⟨d,hd,hv⟩ := ht
  have hleft : (arch ++ ['-']).head? = some c := by simp [List.head?_append,ha]
  have := stripChars_append hleft hc hd hv.not_whitespace
  rwa [List.append_assoc,List.append_assoc] at this

/-- What an architecture changes of a tag: the raw text, which an undecorated version is read as. -/
def LsioTagParts.prefixed (parts : LsioTagParts) (arch raw : Str) : LsioTagParts :=
  { parts with
    raw := raw
    arch := arch
    upstreamVersion := if parts.kind = .pseudoSemver then raw else parts.upstreamVersion }

theorem parse_prefixed (hr : AsciiCase rules) {arch text : Str} (ha : ArchPrefix rules arch) (ht : VersionHead text) :
    parseLsioTag rules (arch ++ '-' :: text) =
      (parseLsioTag rules text).prefixed arch (arch ++ '-' :: strip text) := by
  obtain ⟨c,hc,hblank,-⟩ := ha.exists_head hr
  have hdash := ha.dash_not_mem hr
  have hraw := strip_prefixed hc hblank ht
  have hne : arch ++ '-' :: strip text ≠ [] := by simp
  have hsplit : splitArch rules ((arch ++ '-' :: strip text).splitOn '-') = (arch,(strip text).splitOn '-') := by
    rw [List.splitOn_append_cons_self_of_not_mem hdash,splitArch_prefixed ha]
  have htext := splitArch_of_versionHead hr ht.strip
  have hbuild := lsioBuildSuffix_prefixed hdash (not_isLsioBuild ht.strip)
  cases hm : tokenIndex rules ((strip text).splitOn '-') versionMarker with
  | some marker =>
    rw [parse_marked hraw hne hsplit hm,parse_marked rfl ht.strip.ne_nil htext hm]
    unfold versionTagParts
    dsimp only
    split <;> rfl
  | none =>
    cases hb : lsioBuildSuffix (strip text) with
    | some found =>
      obtain ⟨body,build⟩ := found
      have hbody := ht.strip.of_body hb
      rw [hb] at hbuild
      rw [parse_built hraw hne hsplit hm hbuild (by simp),parse_built rfl ht.strip.ne_nil htext hm hb hbody.ne_nil]
      unfold buildTagParts
      rw [List.splitOn_append_cons_self_of_not_mem hdash,splitArch_prefixed ha,splitArch_of_versionHead hr hbody]
      dsimp only
      split <;> rfl
    | none =>
      rw [hb] at hbuild
      rw [parse_plain hraw hne hsplit hm hbuild,parse_plain rfl ht.strip.ne_nil htext hm hb]
      unfold plainTagParts
      split <;> rfl

/-- Nothing that is read off a tag as its version is longer than the tag. -/
theorem length_upstreamVersion_le (tag : Str) :
    (parseLsioTag rules tag).upstreamVersion.length ≤ (strip tag).length := by
  have htokens : ∀ (text : Str) (n : ℕ),
      (joinTokens ((splitArch rules (text.splitOn '-')).2.drop n)).length ≤ text.length := by
    intro text n
    obtain ⟨token,tokens,hsplit⟩ := List.exists_cons_of_ne_nil (List.splitOn_ne_nil '-' text)
    have htext : joinTokens (token :: tokens) = text := by
      rw [← hsplit]
      exact List.intercalate_splitOn '-'
    have hlength : (joinTokens (token :: tokens)).length = text.length := by rw [htext]
    rw [hsplit,splitArch,← hlength]
    split
    · exact length_joinTokens_drop (token :: tokens) (n+1)
    · exact length_joinTokens_drop (token :: tokens) n
  have hversion : ∀ (raw arch : Str) (tokens : List Str) (marker : ℕ),
      (joinTokens (tokens.drop (marker+1))).length ≤ raw.length →
      (versionTagParts raw arch tokens marker).upstreamVersion.length ≤ raw.length := by
    intro raw arch tokens marker h
    unfold versionTagParts
    dsimp only
    split
    · exact h
    · exact Nat.zero_le _
  have hplain : ∀ (raw arch : Str) (tokens : List Str),
      (plainTagParts raw arch tokens).upstreamVersion.length ≤ raw.length := by
    intro raw arch tokens
    unfold plainTagParts
    split <;> simp
  by_cases hne : strip tag = []
  · rw [parseLsioTag,if_pos hne]
    exact Nat.zero_le _
  · have hs : splitArch rules ((strip tag).splitOn '-') = (_,_) := rfl
    cases hm : tokenIndex rules (splitArch rules ((strip tag).splitOn '-')).2 versionMarker with
    | some marker =>
      rw [parse_marked rfl hne hs hm]
      exact hversion _ _ _ _ (htokens _ _)
    | none =>
      cases hb : lsioBuildSuffix (strip tag) with
      | none =>
        rw [parse_plain rfl hne hs hm hb]
        exact hplain _ _ _
      | some found =>
        obtain ⟨body,build⟩ := found
        by_cases hbody : body = []
        · simp only [parseLsioTag,hne,if_false,hm,hb,hbody,ne_eq,not_true_eq_false]
          exact hplain _ _ _
        · rw [parse_built rfl hne hs hm hb hbody,buildTagParts]
          dsimp only
          split
          · refine (htokens body _).trans ?_
            rw [eq_of_lsioBuildSuffix hb]
            simp
          · exact Nat.zero_le _

/-! The spellings of an upstream version. -/

/-- A version that begins with numbers joined by dots, without a `version` token or a build at its end. -/
structure UpstreamVersion (rules : CaseRules) (u : Str) : Prop where
  dotted : versionStart u = true
  unmarked : ∀ token ∈ u.splitOn '-', rules.lower token ≠ versionMarker
  unbuilt : lsioBuildSuffix u = none

inductive LsioSpelling where
  | plain
  | version
  | build (number : Str)
  deriving DecidableEq, Repr

namespace LsioSpelling

/-- A version in one of its spellings. -/
def text (u : Str) : LsioSpelling → Str
  | plain => u
  | version => versionMarker ++ '-' :: u
  | build number => u ++ '-' :: 'l' :: 's' :: number

/-- A spelling after an architecture prefix or none. -/
def tag (arch : Option Str) (u : Str) (s : LsioSpelling) : Str :=
  match arch with
  | none => s.text u
  | some arch => arch ++ '-' :: s.text u

/-- A build has a number. -/
def Numbered : LsioSpelling → Prop
  | plain | version => True
  | build number => number ∈ Regex.numbers

/-- A version by itself is read with the prefix before it, and blanks at the end of a tag are lost. -/
def ReadBack (arch : Option Str) (u : Str) : LsioSpelling → Prop
  | plain => arch = none ∧ strip u = u
  | version => strip u = u
  | build _ => True

end LsioSpelling

section Spellings
variable {u : Str} (hr : AsciiCase rules) (hu : UpstreamVersion rules u)
include hu

theorem tokenIndex_upstream : tokenIndex rules (u.splitOn '-') versionMarker = none := by
  refine List.findIdx?_eq_none_iff.mpr ?_
  intro token htoken
  simpa using hu.unmarked token htoken

include hr

theorem parse_upstream (hstrip : strip u = u) :
    parseLsioTag rules u = { raw := u, kind := .pseudoSemver, upstreamVersion := u } := by
  have hhead := versionHead_of_start hu.dotted
  rw [parse_plain hstrip hhead.ne_nil (splitArch_of_versionHead hr hhead) (tokenIndex_upstream hu) hu.unbuilt,
    plainTagParts,if_pos (firstVersionIndex_of_start hu.dotted)]

theorem parse_build (number : Str) (hn : number ∈ Regex.numbers) :
    parseLsioTag rules (LsioSpelling.text u (.build number)) =
      { raw := LsioSpelling.text u (.build number), kind := .build, upstreamVersion := u,
        buildSuffix := 'l' :: 's' :: number } := by
  have hhead := versionHead_of_start hu.dotted
  have hraw : VersionHead (LsioSpelling.text u (.build number)) := hhead.append _
  have hdigit : ∀ c ∈ number, VersionChar c := fun c hc => .inl (hn.2 c hc)
  have hstrip : strip (LsioSpelling.text u (.build number)) = LsioSpelling.text u (.build number) := by
    obtain ⟨c,hc,hv⟩ := hraw
    have hlast : (LsioSpelling.text u (.build number)).getLast? = some (number.getLast hn.1) := by
      simp [LsioSpelling.text,List.getLast?_append,List.getLast?_cons,List.getLast?_eq_some_getLast hn.1]
    exact stripChars_of_ends hc hv.not_whitespace hlast (hdigit _ (List.getLast_mem hn.1)).not_whitespace
  have hplain : '-' ∉ 'l' :: 's' :: number := by
    simp only [List.mem_cons,not_or]
    exact ⟨by decide,by decide,fun h => (hdigit '-' h).ne_dash rfl⟩
  have htokens : (LsioSpelling.text u (.build number)).splitOn '-' = u.splitOn '-' ++ ['l' :: 's' :: number] := by
    rw [LsioSpelling.text,List.splitOn_append_cons_self,List.splitOn_eq_singleton hplain]
  have hlower : rules.lower ('l' :: 's' :: number) ≠ versionMarker := by
    intro h
    have := hr.head 'l' ('s' :: number) (by decide)
    rw [h] at this
    exact absurd this (by decide)
  have hmarker : tokenIndex rules (u.splitOn '-' ++ ['l' :: 's' :: number]) versionMarker = none := by
    refine List.findIdx?_eq_none_iff.mpr ?_
    intro token htoken
    obtain htoken | htoken := List.mem_append.mp htoken
    · simpa using hu.unmarked token htoken
    · simpa [List.mem_singleton.mp htoken] using hlower
  have hsplit := splitArch_of_versionHead hr hraw
  rw [← htokens] at hmarker
  rw [parse_built hstrip hraw.ne_nil hsplit hmarker
    (lsioBuildSuffix_append hu.unbuilt (isLsioBuild_numbered hn)) hhead.ne_nil,buildTagParts,
    splitArch_of_versionHead hr hhead]
  dsimp only
  rw [firstVersionIndex_of_start hu.dotted]
  simp only [List.take_zero,List.drop_zero]
  congr 1
  exact List.intercalate_splitOn '-'

end Spellings

theorem versionHead_marked (u : Str) : VersionHead (LsioSpelling.text u .version) := ⟨'v',rfl,.inr (.inl rfl)⟩

/-- What follows the marker is read without the blanks at its end. -/
theorem parse_version (hr : AsciiCase rules) {u : Str} (hu : VersionHead u) :
    parseLsioTag rules (LsioSpelling.text u .version) =
      versionTagParts (versionMarker ++ '-' :: strip u) [] (versionMarker :: (strip u).splitOn '-') 0 := by
  have hraw : strip (LsioSpelling.text u .version) = versionMarker ++ '-' :: strip u :=
    strip_prefixed (show versionMarker.head? = some 'v' from rfl) (by decide) hu
  have hhead : VersionHead (versionMarker ++ '-' :: strip u) := versionHead_marked (strip u)
  have hsplit : (versionMarker ++ '-' :: strip u).splitOn '-' = versionMarker :: (strip u).splitOn '-' :=
    List.splitOn_append_cons_self_of_not_mem (by decide) _
  have hlower : rules.lower versionMarker = versionMarker := by
    rw [hr.lower _ (forall_mem_of_all (by decide))]
    rfl
  have harch := splitArch_of_versionHead hr hhead
  have hmarker : tokenIndex rules ((versionMarker ++ '-' :: strip u).splitOn '-') versionMarker = some 0 := by
    rw [hsplit,tokenIndex,List.findIdx?_cons,if_pos (decide_eq_true hlower)]
  rw [parse_marked hraw hhead.ne_nil harch hmarker,hsplit]

theorem joinTokens_marked (u : Str) : joinTokens ((versionMarker :: u.splitOn '-').drop 1) = u :=
  List.intercalate_splitOn '-'

/-- The parts name a version of an architecture, without a branch. -/
structure LsioTagParts.Named (parts : LsioTagParts) (arch u : Str) : Prop where
  arch : parts.arch = arch
  branch : parts.branch = []
  upstream : parts.upstreamVersion = u
  trusted : trustedKind parts.kind = true

theorem LsioTagParts.Named.prefixed {parts : LsioTagParts} {u : Str} (h : parts.Named [] u) (arch raw : Str)
    (hk : parts.kind ≠ .pseudoSemver) : (parts.prefixed arch raw).Named arch u where
  arch := rfl
  branch := h.branch
  upstream := by
    rw [LsioTagParts.prefixed,if_neg hk]
    exact h.upstream
  trusted := h.trusted

theorem parse_marked_version (hr : AsciiCase rules) {u : Str} (hu : UpstreamVersion rules u) (hstrip : strip u = u) :
    (parseLsioTag rules (LsioSpelling.text u .version)).Named [] u ∧
      (parseLsioTag rules (LsioSpelling.text u .version)).kind = .version := by
  have hhead := versionHead_of_start hu.dotted
  rw [parse_version hr hhead,hstrip,versionTagParts]
  rw [joinTokens_marked,if_pos (by simp [hu.dotted,hhead.ne_nil])]
  exact ⟨⟨rfl,rfl,rfl,rfl⟩,rfl⟩

namespace LsioSpelling
variable {arch : Option Str} {u : Str} {s : LsioSpelling}

theorem versionHead_text (hu : UpstreamVersion rules u) (s : LsioSpelling) : VersionHead (s.text u) := by
  have hhead := versionHead_of_start hu.dotted
  cases s with
  | plain => exact hhead
  | version => exact versionHead_marked u
  | build number => exact hhead.append _

/-- A spelling that is read back names its version and the prefix before it. -/
theorem ReadBack.named (hr : AsciiCase rules) (ha : ∀ a ∈ arch, ArchPrefix rules a) (hu : UpstreamVersion rules u)
    (hs : s.Numbered) (h : s.ReadBack arch u) : (parseLsioTag rules (s.tag arch u)).Named (arch.getD []) u := by
  have hnamed : (parseLsioTag rules (s.text u)).Named [] u ∧
      (arch ≠ none → (parseLsioTag rules (s.text u)).kind ≠ .pseudoSemver) := by
    cases s with
    | plain =>
      obtain ⟨rfl,hstrip⟩ := h
      have hparts : parseLsioTag rules (text u plain) = _ := parse_upstream hr hu hstrip
      rw [hparts]
      exact ⟨⟨rfl,rfl,rfl,rfl⟩,fun h => absurd rfl h⟩
    | version =>
      obtain ⟨hnamed,hkind⟩ := parse_marked_version hr hu h
      exact ⟨hnamed,fun _ => by simp [hkind]⟩
    | build number =>
      rw [parse_build hr hu number hs]
      exact ⟨⟨rfl,rfl,rfl,rfl⟩,fun _ => by simp⟩
  obtain ⟨hnamed,hkind⟩ := hnamed
  cases arch with
  | none => exact hnamed
  | some a =>
    rw [tag,parse_prefixed hr (ha a rfl) (versionHead_text hu s)]
    exact hnamed.prefixed a _ (hkind (by simp))

/-- A version without a prefix that is read back has no blanks at its end. -/
theorem strip_of_upstream {rules : CaseRules} (h : (parseLsioTag rules u).upstreamVersion = u) : strip u = u := by
  have hlength := @length_upstreamVersion_le rules u
  rw [h] at hlength
  exact (stripChars_sublist whitespace u).eq_of_length_le hlength

theorem strip_of_marked (hr : AsciiCase rules) (hu : VersionHead u)
    (h : (parseLsioTag rules (text u version)).upstreamVersion = u) : strip u = u := by
  rw [parse_version hr hu,versionTagParts,joinTokens_marked] at h
  split at h
  · exact h
  · exact absurd h.symm hu.ne_nil

theorem kind_marked (hr : AsciiCase rules) (hu : VersionHead u) :
    (parseLsioTag rules (text u version)).kind ≠ .pseudoSemver := by
  rw [parse_version hr hu,versionTagParts]
  split <;> simp

/-- Only such a spelling gives its version back. -/
theorem readBack_of_upstream (hr : AsciiCase rules) (ha : ∀ a ∈ arch, ArchPrefix rules a)
    (hu : UpstreamVersion rules u) (h : (parseLsioTag rules (s.tag arch u)).upstreamVersion = u) :
    s.ReadBack arch u := by
  have hhead := versionHead_of_start hu.dotted
  cases arch with
  | none =>
    cases s with
    | plain => exact ⟨rfl,strip_of_upstream h⟩
    | version => exact strip_of_marked hr hhead h
    | build number => trivial
  | some a =>
    rw [tag,parse_prefixed hr (ha a rfl) (versionHead_text hu s),LsioTagParts.prefixed] at h
    cases s with
    | plain =>
      exfalso
      split at h
      · obtain ⟨c,hc,-,hother⟩ := (ha a rfl).exists_head hr
        obtain ⟨d,hd,hv⟩ := hhead
        rw [← h,List.head?_append,hc] at hd
        obtain rfl : c = d := by simpa using hd
        exact hother hv
      · rename_i hkind
        apply hkind
        have hparts : parseLsioTag rules (text u plain) = _ := parse_upstream hr hu (strip_of_upstream h)
        rw [hparts]
    | version =>
      dsimp only at h
      rw [if_neg (kind_marked hr hhead)] at h
      exact strip_of_marked hr hhead h
    | build number => trivial

end LsioSpelling

/-! What an update changes. -/

theorem normalizeLsioVersion_ne_nil (hr : AsciiCase rules) {u : Str} (hu : VersionHead u) :
    normalizeLsioVersion rules u ≠ [] := by
  obtain ⟨c,hc,hv⟩ := hu.strip
  obtain ⟨rest,hrest⟩ := List.head?_eq_some_iff.mp hc
  have hlower := hr.head c rest hv.ascii
  rw [← hrest] at hlower
  unfold normalizeLsioVersion
  split
  · split <;> simp
  · intro h
    rw [h] at hlower
    cases hlower

/-- Two tags of one architecture that name their versions differ in the version or in the image only. -/
theorem classify_named (hr : AsciiCase rules) {repo tag tag' lsioTag upstream arch u u' : Str}
    (hrepo : isLsioRepo rules repo = true) (htag : tag' ≠ []) (hu : VersionHead u) (hu' : VersionHead u')
    (h : (parseLsioTag rules tag).Named arch u) (h' : (parseLsioTag rules tag').Named arch u') :
    (classifyLsioUpdate rules repo tag tag' lsioTag upstream).changeType =
      if normalizeLsioVersion rules u = normalizeLsioVersion rules u' then .imageRebuild else .upstreamUpdate := by
  have hcurrent : trustedUpstream rules (parseLsioTag rules tag) = normalizeLsioVersion rules u := by
    rw [trustedUpstream,if_pos h.trusted,h.upstream]
  have htarget : trustedUpstream rules (parseLsioTag rules tag') = normalizeLsioVersion rules u' := by
    rw [trustedUpstream,if_pos h'.trusted,h'.upstream]
  have hne := normalizeLsioVersion_ne_nil hr hu
  have hne' := normalizeLsioVersion_ne_nil hr hu'
  simp only [classifyLsioUpdate,if_pos htag,hrepo,hcurrent,htarget,h.arch,h'.arch,h.branch,h'.branch,h.trusted,
    h'.trusted]
  by_cases heq : normalizeLsioVersion rules u = normalizeLsioVersion rules u'
  · simp [heq,hne']
  · simp [heq,hne,hne']

/-- The spelling of a tag does not matter exactly when both spellings give their versions back. -/
theorem lsio_spelling_independent_iff {rules : CaseRules} (hr : AsciiCase rules) {arch : Option Str}
    (ha : ∀ a ∈ arch, ArchPrefix rules a) {u u' : Str} (hu : UpstreamVersion rules u)
    (hu' : UpstreamVersion rules u') {s s' : LsioSpelling} (hs : s.Numbered) (hs' : s'.Numbered) {repo : Str}
    (hrepo : isLsioRepo rules repo = true) (lsioTag upstream : Str) :
    ((parseLsioTag rules (s.tag arch u)).arch = arch.getD [] ∧
      (parseLsioTag rules (s'.tag arch u')).arch = arch.getD [] ∧
      (parseLsioTag rules (s.tag arch u)).upstreamVersion = u ∧
      (parseLsioTag rules (s'.tag arch u')).upstreamVersion = u' ∧
      (classifyLsioUpdate rules repo (s.tag arch u) (s'.tag arch u') lsioTag upstream).changeType =
        if normalizeLsioVersion rules u = normalizeLsioVersion rules u' then .imageRebuild else .upstreamUpdate) ↔
    s.ReadBack arch u ∧ s'.ReadBack arch u' := by
  constructor
  · intro h
    obtain ⟨-,-,hread,hread',-⟩ := h
    exact ⟨LsioSpelling.readBack_of_upstream hr ha hu hread,LsioSpelling.readBack_of_upstream hr ha hu' hread'⟩
  · intro h
    obtain ⟨hread,hread'⟩ := h
    have hnamed := hread.named hr ha hu hs
    have hnamed' := hread'.named hr ha hu' hs'
    have htag : s'.tag arch u' ≠ [] := by
      cases arch with
      | none => exact (LsioSpelling.versionHead_text hu' s').ne_nil
      | some a => simp [LsioSpelling.tag]
    exact ⟨hnamed.arch,hnamed'.arch,hnamed.upstream,hnamed'.upstream,classify_named hr hrepo htag
      (versionHead_of_start hu.dotted) (versionHead_of_start hu'.dotted) hnamed hnamed'⟩

namespace Example

def jackettRepo : Str := "linuxserver/jackett".toList

theorem upstreamVersion_dotted : UpstreamVersion plainCase "2.6.0".toList where
  dotted := by decide
  unmarked := by decide
  unbuilt := by decide

theorem arm_prefix : ∀ a ∈ some "arm64v8".toList, ArchPrefix plainCase a := by
  intro a ha
  obtain rfl : "arm64v8".toList = a := by simpa using ha
  exact ⟨forall_mem_of_all (by decide),by decide⟩

def armTag (s : LsioSpelling) : Str := s.tag (some "arm64v8".toList) "2.6.0".toList

theorem rebuilt_arm_image :
    (classifyLsioUpdate plainCase jackettRepo (armTag .version) (armTag (.build "225".toList)) [] []).changeType =
      .imageRebuild := by
  have hnumber : "225".toList ∈ Regex.numbers := ⟨by decide,forall_mem_of_all (by decide)⟩
  have hread : strip "2.6.0".toList = "2.6.0".toList := by decide
  have h := (lsio_spelling_independent_iff asciiCase_plainCase arm_prefix upstreamVersion_dotted
    upstreamVersion_dotted (s := .version) trivial (show (LsioSpelling.build _).Numbered from hnumber)
    (show isLsioRepo plainCase jackettRepo = true by decide) [] []).mpr ⟨hread,trivial⟩
  exact h.2.2.2.2.trans (if_pos rfl)

/-- A version by itself is read with the architecture before it, as another version. -/
theorem prefixed_version_misread :
    (parseLsioTag plainCase (armTag .plain)).upstreamVersion = "arm64v8-2.6.0".toList ∧
    (parseLsioTag plainCase (armTag (.build "225".toList))).upstreamVersion = "2.6.0".toList ∧
    (classifyLsioUpdate plainCase jackettRepo (armTag .plain) (armTag (.build "225".toList)) [] []).changeType =
      .upstreamUpdate := by
  decide +kernel

end Example

end Wudup

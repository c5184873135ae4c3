import Wudup.Library.Decimal
import Wudup.ManagedSettings

/-! What is stored of a checked value is read back as the value. -/
namespace Wudup
open Library

/-! Switches -/

theorem parseBoolEnv_formatBool (name : Str) (value default : Bool) :
    parseBoolEnv name (some (formatBool value)) default = .ok value := by
  cases value with
  | false =>
    rw [parseBoolEnv,if_neg (by decide)]
    dsimp only
    rw [if_neg (by decide),if_pos (by decide)]
  | true =>
    rw [parseBoolEnv,if_neg (by decide)]
    dsimp only
    rw [if_pos (by decide)]

theorem parseBoolEnv_nil (name : Str) (default : Bool) : parseBoolEnv name (some []) default = .ok default :=
  if_pos rfl

/-! Paths that are ignored -/

theorem composeIgnoreItem_ok {name rawItem : Str} {path : RelativePath} (h : composeIgnoreItem name rawItem = .ok path) :
    asPosix path = strip rawItem ∧ strip rawItem ≠ [] ∧
      ∀ other, composeIgnoreItem other (strip rawItem) = .ok path := by
  have hstrip : strip (strip rawItem) = strip rawItem := stripChars_stripChars _ _
  rw [composeIgnoreItem] at h
  split at h
  · cases h
  · rename_i hne
    split at h
    · cases h
    · rename_i hslash
      split at h
      · cases h
      · rename_i hparts
        cases h
        refine ⟨List.intercalate_splitOn '/',hne,fun other => ?_⟩
        rw [composeIgnoreItem,hstrip,if_neg hne,if_neg hslash,if_neg hparts]

/-- The paths of a list are written without commas, and each is read back. -/
structure Listed (name : Str) (path : RelativePath) : Prop where
  nonempty : asPosix path ≠ []
  comma : ',' ∉ asPosix path
  readBack : composeIgnoreItem name (asPosix path) = .ok path
  spaced : composeIgnoreItem name (' ' :: asPosix path) = .ok path

theorem strip_space (text : Str) : strip (' ' :: text) = strip text := by
  have hblank : ∀ c ∈ [' '], c ∈ whitespace := forall_mem_of_all (by decide)
  have hspace := @stripChars_around whitespace text [' '] [] hblank (by simp)
  simpa [strip] using hspace

theorem listed_of_item {name rawItem : Str} {path : RelativePath} (hcomma : ',' ∉ rawItem)
    (h : composeIgnoreItem name rawItem = .ok path) : Listed name path := by
  obtain ⟨htext,hne,hread⟩ := composeIgnoreItem_ok h
  have hinside : asPosix path ⊆ rawItem := by
    rw [htext]
    exact (stripChars_sublist whitespace rawItem).subset
  refine ⟨htext ▸ hne,fun hmem => hcomma (hinside hmem),htext ▸ hread name,?_⟩
  have hsame : composeIgnoreItem name (' ' :: asPosix path) = composeIgnoreItem name (asPosix path) := by
    rw [composeIgnoreItem,composeIgnoreItem,strip_space]
  rw [hsame,htext]
  exact hread name

theorem orderedUnique_eq_self {α : Type} [DecidableEq α] {xs : List α} (h : xs.Nodup) : orderedUnique xs = xs := by
  induction xs with
  | nil => rfl
  | cons x xs ih =>
    obtain ⟨hx,hxs⟩ := List.nodup_cons.mp h
    rw [orderedUnique,ih hxs,List.filter_eq_self.mpr]
    intro y hy
    exact decide_eq_true fun heq => hx (heq ▸ hy)

theorem intercalate_comma_space (text : Str) (texts : List Str) :
    List.intercalate [',',' '] (text :: texts) = List.intercalate [','] (text :: texts.map (' ' :: ·)) := by
  induction texts generalizing text with
  | nil => rfl
  | cons next texts ih =>
    rw [List.intercalate_cons_cons,ih,List.map_cons,List.intercalate_cons_cons]
    cases texts <;> simp [List.intercalate]

/-- Listed paths are read back as they are written. -/
theorem parse_formatComposeIgnorePaths {name : Str} {paths : List RelativePath} (hn : paths.Nodup)
    (h : ∀ path ∈ paths, Listed name path) :
    parseComposeIgnorePaths name (some (formatComposeIgnorePaths paths)) = .ok paths := by
  cases paths with
  | nil => rfl
  | cons path paths =>
    have hsplit : (formatComposeIgnorePaths (path :: paths)).splitOn ',' =
        asPosix path :: (paths.map asPosix).map (' ' :: ·) := by
      rw [formatComposeIgnorePaths,List.map_cons,intercalate_comma_space]
      refine List.splitOn_intercalate ',' (fun text htext => ?_) (by simp)
      rcases List.mem_cons.mp htext with rfl | htext
      · exact (h path (by simp)).comma
      · rw [List.map_map,List.mem_map] at htext
        obtain ⟨other,hother,rfl⟩ := htext
        intro hcomma
        rcases List.mem_cons.mp hcomma with hspace | hcomma
        · exact absurd hspace (by decide)
        · exact (h other (List.mem_cons_of_mem _ hother)).comma hcomma
    have hitems : (asPosix path :: (paths.map asPosix).map (' ' :: ·)).mapM (composeIgnoreItem name) =
        .ok (path :: paths) := by
      rw [mapM_eq_ok,List.map_cons,List.map_cons,(h path (by simp)).readBack,List.map_map,List.map_map]
      refine congrArg _ (List.map_congr_left fun other hother => ?_)
      exact (h other (by simp [hother])).spaced
    have hne : formatComposeIgnorePaths (path :: paths) ≠ [] := by
      intro hnil
      rw [hnil,List.splitOn_nil] at hsplit
      exact (h path (by simp)).nonempty (List.cons.inj hsplit).1.symm
    rw [parseComposeIgnorePaths.eq_def]
    cases htext : formatComposeIgnorePaths (path :: paths) with
    | nil => exact absurd htext hne
    | cons c text =>
      dsimp only
      rw [← htext,hsplit,hitems]
      exact congrArg Except.ok (orderedUnique_eq_self hn)

/-- What was read once is written so that it is read again, under whatever name. -/
theorem parse_format_of_parse {name : Str} {value : Option Str} {paths : List RelativePath}
    (h : parseComposeIgnorePaths name value = .ok paths) :
    parseComposeIgnorePaths name (some (formatComposeIgnorePaths paths)) = .ok paths := by
  rw [parseComposeIgnorePaths.eq_def] at h
  split at h
  · cases h
    rfl
  · cases h
    rfl
  · rename_i value _
    cases hread : (value.splitOn ',').mapM (composeIgnoreItem name) with
    | error failure =>
      rw [hread] at h
      cases h
    | ok found =>
      rw [hread] at h
      cases h
      refine parse_formatComposeIgnorePaths (nodup_orderedUnique found) fun path hpath => ?_
      have hmap := mapM_eq_ok.mp hread
      have hmem : (.ok path : Except SettingsFailure RelativePath) ∈ (value.splitOn ',').map (composeIgnoreItem name) :=
        hmap ▸ List.mem_map_of_mem (mem_orderedUnique.mp hpath)
      obtain ⟨item,hitem,hok⟩ := List.mem_map.mp hmem
      exact listed_of_item (not_mem_of_mem_splitOn hitem) hok

/-! Positive integers -/

theorem decimalValue_lt {c : Char} {digit : ℕ} (h : decimalValue c = some digit) : digit < 10 := by
  rw [decimalValue,Option.map_eq_some_iff] at h
  obtain ⟨first,hfind,rfl⟩ := h
  have hrange := List.find?_some hfind
  simp only [Bool.and_eq_true,decide_eq_true_eq] at hrange
  omega

theorem foldl_digits_lt {digits : List ℕ} (h : ∀ digit ∈ digits, digit < 10) (n : ℕ) :
    digits.foldl (fun n digit => 10*n + digit) n < (n + 1) * 10^digits.length := by
  induction digits generalizing n with
  | nil => simp
  | cons digit digits ih =>
    have hdigit := h digit (by simp)
    calc (digit :: digits).foldl (fun n digit => 10*n + digit) n
        < (10*n + digit + 1) * 10^digits.length := ih (fun d hd => h d (List.mem_cons_of_mem _ hd)) _
      _ ≤ ((n + 1) * 10) * 10^digits.length := Nat.mul_le_mul_right _ (by omega)
      _ = (n + 1) * 10^(digit :: digits).length := by rw [List.length_cons,Nat.pow_succ,Nat.mul_assoc,Nat.mul_comm 10]

/-- A number that is read has no more digits than the text it was read from may have. -/
theorem length_toDigits_of_readDecimal {text : Str} {n : ℕ} (h : readDecimal text = some n) :
    (Nat.toDigits 10 n).length ≤ maxDigits := by
  rw [readDecimal] at h
  split at h
  · cases h
  · rename_i htext
    obtain ⟨digits,hdigits,rfl⟩ := Option.map_eq_some_iff.mp h
    have hlength : digits.length = text.length := by
      have hmap := congrArg List.length (mapM_eq_some.mp hdigits)
      rw [List.length_map,List.length_map] at hmap
      exact hmap.symm
    have hsmall : ∀ digit ∈ digits, digit < 10 := by
      intro digit hdigit
      obtain ⟨c,-,hc⟩ := (mem_of_mapM_eq_some hdigits).mp hdigit
      exact decimalValue_lt hc
    simp only [Bool.or_eq_true,decide_eq_true_eq,not_or,Nat.not_lt] at htext
    rw [Nat.length_toDigits_le_iff (by decide) (by decide)]
    calc digits.foldl (fun n digit => 10*n + digit) 0
        < (0 + 1) * 10^digits.length := foldl_digits_lt hsmall 0
      _ = 10^text.length := by rw [Nat.one_mul,hlength]
      _ ≤ 10^maxDigits := Nat.pow_le_pow_right (by decide) htext.2

theorem digit_not_mem {c : Char} {n : ℕ} (h : c.isDigit = false) : c ∉ Nat.toDigits 10 n := by
  intro hc
  rw [Nat.isDigit_of_mem_toDigits (by decide) (by decide) hc] at h
  cases h

theorem strip_toDigits (n : ℕ) : strip (Nat.toDigits 10 n) = Nat.toDigits 10 n := by
  have hblank : ∀ c ∈ whitespace, c.isDigit = false := forall_mem_of_all (by decide)
  exact stripChars_eq_self fun c hc hspace => digit_not_mem (hblank c hspace) hc

theorem unsignedLiteral_toDigits {n : ℕ} (h : (Nat.toDigits 10 n).length ≤ maxDigits) :
    unsignedLiteral (Nat.toDigits 10 n) = some n := by
  have hgroups : (Nat.toDigits 10 n).splitOn '_' = [Nat.toDigits 10 n] := by
    have hsplit : (List.intercalate ['_'] [Nat.toDigits 10 n]).splitOn '_' = [Nat.toDigits 10 n] := by
      refine List.splitOn_intercalate '_' (fun part hpart => ?_) (by simp)
      rw [List.mem_singleton.mp hpart]
      exact digit_not_mem (by decide)
    simpa [List.intercalate] using hsplit
  have hread := readDecimal_of_ascii Nat.toDigits_ne_nil
    (fun _ hc => Nat.isDigit_of_mem_toDigits (by decide) (by decide) hc) h
  rw [unsignedLiteral,hgroups,if_neg (by simp),List.flatten_singleton,hread,
    digitsValue_toDigits]

theorem intLiteral_toDigits {n : ℕ} (h : (Nat.toDigits 10 n).length ≤ maxDigits) :
    intLiteral (Nat.toDigits 10 n) = some (n : ℤ) := by
  have hsign : ∀ c literal, c.isDigit = false → strip (Nat.toDigits 10 n) ≠ c :: literal := by
    intro c literal hc heq
    rw [strip_toDigits] at heq
    exact digit_not_mem hc (heq ▸ List.mem_cons_self)
  rw [intLiteral.eq_def]
  split
  · exact absurd ‹_› (hsign '-' _ (by decide))
  · exact absurd ‹_› (hsign '+' _ (by decide))
  · rw [strip_toDigits,unsignedLiteral_toDigits h]
    rfl

theorem length_toDigits_of_intLiteral {text : Str} {n : ℤ} (h : intLiteral text = some n) :
    (Nat.toDigits 10 n.natAbs).length ≤ maxDigits := by
  have hread : ∀ {literal : Str} {m : ℕ}, unsignedLiteral literal = some m →
      (Nat.toDigits 10 m).length ≤ maxDigits := by
    intro literal m hm
    rw [unsignedLiteral] at hm
    split at hm
    · cases hm
    · exact length_toDigits_of_readDecimal hm
  rw [intLiteral.eq_def] at h
  split at h
  · obtain ⟨m,hm,rfl⟩ := Option.map_eq_some_iff.mp h
    rw [Int.natAbs_neg,Int.natAbs_natCast]
    exact hread hm
  · obtain ⟨m,hm,rfl⟩ := Option.map_eq_some_iff.mp h
    exact hread hm
  · obtain ⟨m,hm,rfl⟩ := Option.map_eq_some_iff.mp h
    exact hread hm

/-- A setting that was read is positive, and read again from its digits. -/
theorem parsePositiveIntSetting_toDigits {name value : Str} {default n : ℕ} (hdefault : 0 < default)
    (hlength : (Nat.toDigits 10 default).length ≤ maxDigits)
    (h : parsePositiveIntSetting name value default = .ok n) :
    0 < n ∧ parsePositiveIntSetting name (Nat.toDigits 10 n) default = .ok n := by
  have hread : ∀ m : ℕ, 0 < m → (Nat.toDigits 10 m).length ≤ maxDigits →
      parsePositiveIntSetting name (Nat.toDigits 10 m) default = .ok m := by
    intro m hm hl
    rw [parsePositiveIntSetting,strip_toDigits,if_neg Nat.toDigits_ne_nil,intLiteral_toDigits hl]
    dsimp only
    rw [if_neg (by omega),Int.toNat_natCast]
  rw [parsePositiveIntSetting] at h
  split at h
  · cases h
    exact ⟨hdefault,hread default hdefault hlength⟩
  · split at h
    · cases h
    · rename_i parsed hparsed
      split at h
      · cases h
      · rename_i hpositive
        cases h
        have hpos : 0 < parsed.toNat := by omega
        have habs : parsed.natAbs = parsed.toNat := by omega
        exact ⟨hpos,hread _ hpos (habs ▸ length_toDigits_of_intLiteral hparsed)⟩

/-! Webhooks -/

/-- A checked webhook is checked again as it is. -/
theorem validatedDiscordWebhook_ok {rules : RedactionRules} {value webhook : Str}
    (h : validatedDiscordWebhook rules value = .ok webhook) :
    webhook = strip value ∧ validatedDiscordWebhook rules webhook = .ok webhook := by
  have hstrip : strip (strip value) = strip value := stripChars_stripChars _ _
  have hwebhook : webhook = strip value := by
    rw [validatedDiscordWebhook] at h
    split at h
    · cases h
    · dsimp only at h
      split at h
      · cases h
      · cases h
        rfl
  have hagain : validatedDiscordWebhook rules (strip value) = validatedDiscordWebhook rules value := by
    rw [validatedDiscordWebhook,validatedDiscordWebhook,hstrip]
  exact ⟨hwebhook,by rw [hwebhook,hagain,h,hwebhook]⟩

end Wudup

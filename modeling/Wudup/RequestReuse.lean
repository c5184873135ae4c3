import Wudup.Library.History
import Wudup.RequestScopes

/-! Where what a request reuses comes from, in any order of the calls of all requests. -/
namespace Wudup
open Library

/-! What commands may be reused -/

/-- Options with their values, and a subcommand of Compose that only reads. -/
def ReadsCompose (tokens : List Str) : Prop := ∃ (options : List (Str × Str)) (subcommand : Str) (rest : List Str),
  tokens = options.flatMap (fun option => [option.1,option.2]) ++ subcommand :: rest ∧
    (∀ option ∈ options, option.1 ∈ composeOptionsWithValue) ∧ subcommand ∈ reusableComposeReads

/-- A Docker command that only reads. -/
def ReadsState (argv : List Str) : Prop := ∃ executable command rest,
  argv = executable :: command :: rest ∧ pathName executable = "docker".toList ∧
    (command ∈ reusableDockerReads ∨ (command = "image".toList ∧ rest.head? = some "inspect".toList) ∨
      (command = "compose".toList ∧ ReadsCompose rest))

theorem composeSubcommand_append {options : List (Str × Str)} {subcommand : Str} {rest : List Str}
    (hoptions : ∀ option ∈ options, option.1 ∈ composeOptionsWithValue) (hs : subcommand ∈ reusableComposeReads) :
    composeSubcommand (options.flatMap (fun option => [option.1,option.2]) ++ subcommand :: rest) = subcommand := by
  induction options with
  | nil =>
    have hplain : subcommand ∉ composeOptionsWithValue ∧ subcommand.head? ≠ some '-' := by
      revert subcommand
      decide
    rw [List.flatMap_nil,List.nil_append,composeSubcommand.eq_def]
    simp only [if_neg hplain.1,if_neg hplain.2]
  | cons option options ih =>
    rw [List.flatMap_cons,List.append_assoc,List.cons_append,List.cons_append,List.nil_append,composeSubcommand.eq_def]
    simp only [if_pos (hoptions option List.mem_cons_self)]
    exact ih fun other ho => hoptions other (List.mem_cons_of_mem _ ho)

theorem composeSubcommand_reads {tokens : List Str} (h : composeSubcommand tokens ∈ reusableComposeReads) :
    ReadsCompose tokens := by
  fun_induction composeSubcommand tokens with
  | case1 => exact absurd h (by decide)
  | case2 token htoken => exact absurd h (by decide)
  | case3 token htoken value rest ih =>
    obtain ⟨options,subcommand,more,rfl,hoptions,hs⟩ := ih h
    refine ⟨(token,value) :: options,subcommand,more,rfl,fun option ho => ?_,hs⟩
    rcases List.mem_cons.mp ho with rfl | ho
    · exact htoken
    · exact hoptions option ho
  | case4 => exact absurd h (by decide)
  | case5 token rest => exact ⟨[],token,rest,rfl,fun _ ho => (by cases ho),h⟩

theorem composeSubcommand_reads_iff {tokens : List Str} :
    composeSubcommand tokens ∈ reusableComposeReads ↔ ReadsCompose tokens := by
  constructor
  · exact composeSubcommand_reads
  · rintro ⟨options,subcommand,rest,rfl,hoptions,hs⟩
    rw [composeSubcommand_append hoptions hs]
    exact hs

theorem isReusableRead_cons_iff {executable command : Str} {rest : List Str} :
    isReusableRead (executable :: command :: rest) = true ↔ pathName executable = "docker".toList ∧
      (command ∈ reusableDockerReads ∨ (command = "image".toList ∧ rest.head? = some "inspect".toList) ∨
        (command = "compose".toList ∧ ReadsCompose rest)) := by
  have hcompose : "compose".toList ∉ reusableDockerReads ∧ "compose".toList ≠ "image".toList := by decide
  have himage : "image".toList ∉ reusableDockerReads := by decide
  rw [isReusableRead]
  by_cases hdocker : pathName executable = "docker".toList
  · rw [if_neg (not_not_intro hdocker)]
    by_cases hc : command = "compose".toList
    · subst hc
      rw [if_pos rfl,decide_eq_true_iff,composeSubcommand_reads_iff]
      exact ⟨fun h => ⟨hdocker,.inr (.inr ⟨rfl,h⟩)⟩,fun ⟨_,h⟩ =>
        (h.resolve_left hcompose.1).elim (fun hi => absurd hi.1 hcompose.2) And.right⟩
    · by_cases hi : command = "image".toList
      · subst hi
        rw [if_neg hc,if_pos rfl,decide_eq_true_iff]
        exact ⟨fun h => ⟨hdocker,.inr (.inl ⟨rfl,h⟩)⟩,fun ⟨_,h⟩ =>
          (h.resolve_left himage).elim And.right fun h => absurd h.1 hc⟩
      · rw [if_neg hc,if_neg hi,decide_eq_true_iff]
        exact ⟨fun h => ⟨hdocker,.inl h⟩,fun ⟨_,h⟩ => h.resolve_right fun h =>
          h.elim (fun h => hi h.1) fun h => hc h.1⟩
  · rw [if_pos hdocker]
    exact ⟨fun h => (by cases h),fun h => absurd h.1 hdocker⟩

theorem isReusableRead_iff {argv : List Str} : isReusableRead argv = true ↔ ReadsState argv := by
  constructor
  · intro h
    match argv with
    | [] => cases h
    | [_] => cases h
    | executable :: command :: rest => exact ⟨executable,command,rest,rfl,isReusableRead_cons_iff.mp h⟩
  · rintro ⟨executable,command,rest,rfl,h⟩
    exact isReusableRead_cons_iff.mpr h

/-! What is known while requests run -/

section
variable {υ : Type}

/-- The request that an event is about. -/
def ScopeEvent.about (id : ℕ) : ScopeEvent υ → Prop
  | .began scope _ => scope = id
  | .ended scope => scope = id
  | .reused _ scope _ _ => scope = id
  | _ => False

/-- What a check of the manifest does to an earlier success. -/
def ScopeEvent.replaces (key : ManifestKey) : ScopeEvent υ → Prop
  | .recorded _ other _ => other = key
  | .missed _ other => other = key
  | .cleared => True
  | _ => False

/-- What was executed in a request that reuses reads and has not ended, or passed and was recorded shortly before. -/
def ReuseCause (before : List (ScopeEvent υ)) : ScopeEvent υ → Prop
  | .reused _ scope key value => isReusableRead key.argv = true ∧
      (∃ request, .began scope request ∈ before ∧ reusesReads request = true) ∧ .ended scope ∉ before ∧
        ∃ j, .executed j (some scope) key value ∈ before
  | .recorded i key time => ∃ earlier ≤ time, .passed i key earlier ∈ before
  | .skipped _ scope key now =>
      (∃ request, .began scope request ∈ before ∧ reusesRegistryChecks request = true) ∧
        ∃ j time, Standing (·.replaces key) before (.recorded j key time) ∧ now - time < registryCheckTtlSeconds
  | _ => True

structure RequestScope.Sound (history : List (ScopeEvent υ)) (id : ℕ) (scope : RequestScope υ) : Prop where
  began : ∃ request, .began id request ∈ history ∧ scope.reuseRegistryChecks = reusesRegistryChecks request ∧
    (scope.reuseReads = true → reusesReads request = true)
  running : scope.reuseReads = true → .ended id ∉ history
  closed : scope.reuseReads = false → scope.reads = []
  reads : ∀ entry ∈ scope.reads, isReusableRead entry.1.argv = true ∧
    ∃ j, .executed j (some id) entry.1 entry.2 ∈ history
  kept : scope.reuseReads = true → ∀ i key value, .reused i id key value ∈ history →
    (Keyed.find (·.1) key scope.reads).map (·.2) = some value

def ScopedCall.Sound (history : List (ScopeEvent υ)) (now : ℚ) (i : ℕ) (call : ScopedCall υ) : Prop :=
  match call.stage with
  | .lookingUp key => isReusableRead key.argv = true
  | .executing key stores => stores = true → isReusableRead key.argv = true
  | .storing key value => isReusableRead key.argv = true ∧ .executed i call.scope key value ∈ history
  | .lookingUpCheck _ _ => ∃ id request, call.scope = some id ∧ .began id request ∈ history ∧
      reusesRegistryChecks request = true
  | .recording key => ∃ time ≤ now, .passed i key time ∈ history
  | _ => True

/-- The recorded checks are the latest of their keys, in the order of their times. -/
structure ChecksSound (history : List (ScopeEvent υ)) (now : ℚ) (checks : List (ManifestKey × ℚ)) : Prop where
  nodup : (checks.map (·.1)).Nodup
  few : checks.length ≤ registryCheckLimit
  ordered : checks.Pairwise fun a b => a.2 ≤ b.2
  past : ∀ entry ∈ checks, entry.2 ≤ now
  latest : ∀ entry ∈ checks, ∃ j, Standing (·.replaces entry.1) history (.recorded j entry.1 entry.2)

namespace ScopeState

structure Sound (s : ScopeState υ) : Prop where
  scopes : ∀ id scope, s.scopes id = some scope → scope.Sound s.history id
  fresh : ∀ id, s.scopes id = none → ∀ event ∈ s.history, ¬ event.about id
  calls : ∀ i call, s.calls i = some call → call.Sound s.history s.now i
  checks : ChecksSound s.history s.now s.registryChecks
  explained : Caused ReuseCause s.history
  agree : ∀ i j id key value other, .reused i id key value ∈ s.history → .reused j id key other ∈ s.history →
    value = other

end ScopeState

variable {s : ScopeState υ} {history : List (ScopeEvent υ)} {event : ScopeEvent υ} {now : ℚ} {i id : ℕ}
  {call : ScopedCall υ} {scope : RequestScope υ} {checks : List (ManifestKey × ℚ)}

/-! What is known stays known as time passes and more happens. -/

theorem ScopedCall.Sound.mono {later : ℚ} {more : List (ScopeEvent υ)} (h : call.Sound history now i)
    (hnow : now ≤ later) : call.Sound (history ++ more) later i := by
  rw [ScopedCall.Sound] at h ⊢
  generalize call.stage = stage at h ⊢
  cases stage with
  | capturing key => trivial
  | lookingUp key => exact h
  | executing key stores => exact h
  | storing key value => exact ⟨h.1,List.mem_append_left _ h.2⟩
  | checking key => trivial
  | lookingUpCheck key time =>
    obtain ⟨id,request,hscope,hbegan,hchecks⟩ := h
    exact ⟨id,request,hscope,List.mem_append_left _ hbegan,hchecks⟩
  | runningCheck key records => trivial
  | recording key =>
    obtain ⟨time,htime,hpassed⟩ := h
    exact ⟨time,htime.trans hnow,List.mem_append_left _ hpassed⟩
  | done => trivial

/-- An event that is not about the request. -/
theorem RequestScope.Sound.log (h : scope.Sound history id) (hevent : ¬ event.about id) :
    scope.Sound (history ++ [event]) id where
  began := by
    obtain ⟨request,hbegan,hreuses⟩ := h.began
    exact ⟨request,List.mem_append_left _ hbegan,hreuses⟩
  running hreuse hended := by
    rcases List.mem_append.mp hended with hended | hended
    · exact h.running hreuse hended
    · rw [← List.mem_singleton.mp hended] at hevent
      exact hevent rfl
  closed := h.closed
  reads := by
    intro entry he
    obtain ⟨hreusable,j,hj⟩ := h.reads entry he
    exact ⟨hreusable,j,List.mem_append_left _ hj⟩
  kept hreuse i key value hreused := by
    rcases List.mem_append.mp hreused with hreused | hreused
    · exact h.kept hreuse i key value hreused
    · rw [← List.mem_singleton.mp hreused] at hevent
      exact absurd rfl hevent

theorem mem_concat_of_ne {other : ScopeEvent υ} (h : other ∈ history ++ [event]) (hne : event ≠ other) :
    other ∈ history := by
  rcases List.mem_append.mp h with h | h
  · exact h
  · exact absurd (List.mem_singleton.mp h).symm hne

/-- A request stays as it is known when an event of it is no end, and no reuse of another value. -/
theorem RequestScope.Sound.logAbout (h : scope.Sound history id) (hended : event ≠ .ended id)
    (hreused : ∀ i key value, event = .reused i id key value →
      (Keyed.find (·.1) key scope.reads).map (·.2) = some value) : scope.Sound (history ++ [event]) id where
  began := by
    obtain ⟨request,hbegan,hreuses⟩ := h.began
    exact ⟨request,List.mem_append_left _ hbegan,hreuses⟩
  running hreuse he := h.running hreuse (mem_concat_of_ne he hended)
  closed := h.closed
  reads := by
    intro entry he
    obtain ⟨hreusable,j,hj⟩ := h.reads entry he
    exact ⟨hreusable,j,List.mem_append_left _ hj⟩
  kept hreuse i key value he := by
    by_cases hevent : event = .reused i id key value
    · exact hreused i key value hevent
    · exact h.kept hreuse i key value (mem_concat_of_ne he hevent)

/-- The count of what a request reused. -/
theorem RequestScope.Sound.counted {history : List (ScopeEvent υ)} (h : scope.Sound history id) (n : ℕ) :
    ({ scope with reused := n } : RequestScope υ).Sound history id :=
  ⟨h.began,h.running,h.closed,h.reads,h.kept⟩

/-- The result of a read is stored, for a request that has not ended. -/
theorem RequestScope.Sound.stored (h : scope.Sound history id) (hreuse : scope.reuseReads = true) {key : CaptureKey}
    {value : υ} (hreusable : isReusableRead key.argv = true)
    (hexecuted : .executed i (some id) key value ∈ history) :
    ({ scope with reads := scope.reads ++ [(key,value)] } : RequestScope υ).Sound history id where
  began := h.began
  running := h.running
  closed hclosed := by
    change scope.reuseReads = false at hclosed
    rw [hreuse] at hclosed
    cases hclosed
  reads entry he := by
    rcases List.mem_append.mp he with he | he
    · exact h.reads entry he
    · cases List.mem_singleton.mp he
      exact ⟨hreusable,_,hexecuted⟩
  kept _ j other found hreused := by
    have hkept := h.kept hreuse j other found hreused
    rw [Option.map_eq_some_iff] at hkept
    obtain ⟨entry,hentry,rfl⟩ := hkept
    rw [Keyed.find,List.find?_append]
    rw [Keyed.find] at hentry
    rw [hentry]
    rfl

/-- An event that replaces none of the checks. -/
theorem ChecksSound.log {later : ℚ} (h : ChecksSound history now checks) (hnow : now ≤ later)
    (hevent : ∀ entry ∈ checks, ¬ event.replaces entry.1) : ChecksSound (history ++ [event]) later checks := by
  refine ⟨h.nodup,h.few,h.ordered,fun entry he => (h.past entry he).trans hnow,fun entry he => ?_⟩
  obtain ⟨j,hj⟩ := h.latest entry he
  exact ⟨j,hj.concat (hevent entry he)⟩

theorem ChecksSound.sublist {fewer : List (ManifestKey × ℚ)} (h : ChecksSound history now checks)
    (hs : fewer.Sublist checks) : ChecksSound history now fewer :=
  ⟨h.nodup.sublist (hs.map _),hs.length_le.trans h.few,h.ordered.sublist hs,fun entry he => h.past entry (hs.subset he),
    fun entry he => h.latest entry (hs.subset he)⟩

/-- The newest check comes last, and no more than the limit are kept. -/
theorem ChecksSound.record (h : ChecksSound history now checks) (i : ℕ) (key : ManifestKey) :
    ChecksSound (history ++ [.recorded i key now]) now
      (Recent.lastOf registryCheckLimit (Keyed.remove (·.1) key checks ++ [(key,now)])) := by
  have hsub : (Recent.lastOf registryCheckLimit (Keyed.remove (·.1) key checks ++ [(key,now)])).Sublist
      (Keyed.remove (·.1) key checks ++ [(key,now)]) := List.drop_sublist _ _
  have hmem : ∀ entry ∈ Keyed.remove (·.1) key checks ++ [(key,now)],
      (entry ∈ checks ∧ entry.1 ≠ key) ∨ entry = (key,now) := by
    intro entry he
    rcases List.mem_append.mp he with he | he
    · exact .inl (Keyed.mem_remove.mp he)
    · exact .inr (List.mem_singleton.mp he)
  constructor
  · apply List.Nodup.sublist (hsub.map _)
    rw [List.map_append,List.nodup_append]
    refine ⟨h.nodup.sublist (Keyed.remove_sublist.map _),List.nodup_singleton _,fun k hk other ho => ?_⟩
    obtain ⟨entry,he,rfl⟩ := List.mem_map.mp hk
    rw [List.mem_singleton.mp ho]
    exact (Keyed.mem_remove.mp he).2
  · rw [Recent.lastOf,List.length_drop]
    omega
  · apply List.Pairwise.sublist hsub
    rw [List.pairwise_append]
    refine ⟨h.ordered.sublist Keyed.remove_sublist,List.pairwise_singleton _ _,fun entry he other ho => ?_⟩
    rw [List.mem_singleton.mp ho]
    exact h.past entry (Keyed.mem_remove.mp he).1
  · intro entry he
    rcases hmem entry (hsub.subset he) with ⟨he,-⟩ | rfl
    · exact h.past entry he
    · exact le_refl _
  · intro entry he
    rcases hmem entry (hsub.subset he) with ⟨he,hne⟩ | rfl
    · obtain ⟨j,hj⟩ := h.latest entry he
      exact ⟨j,hj.concat fun hr => hne (Eq.symm hr)⟩
    · exact ⟨i,standing_concat⟩

namespace ScopeState

/-! The parts of a step -/

theorem setStage_self (s : ScopeState υ) (i : ℕ) (call : ScopedCall υ) (stage : CallStage υ) :
    (s.setStage i call stage).calls i = some { call with stage } := Function.update_self ..

theorem setStage_other {j : ℕ} (h : j ≠ i) (s : ScopeState υ) (call : ScopedCall υ) (stage : CallStage υ) :
    (s.setStage i call stage).calls j = s.calls j := Function.update_of_ne h ..

theorem setScope_self (s : ScopeState υ) (id : ℕ) (scope : RequestScope υ) :
    (s.setScope id scope).scopes id = some scope := Function.update_self ..

theorem setScope_other {other : ℕ} (h : other ≠ id) (s : ScopeState υ) (scope : RequestScope υ) :
    (s.setScope id scope).scopes other = s.scopes other := Function.update_of_ne h ..

/-- An event that records no check. -/
theorem Sound.log (h : s.Sound) (hscopes : ∀ id scope, s.scopes id = some scope → event.about id →
      scope.Sound (s.history ++ [event]) id)
    (hfresh : ∀ id, s.scopes id = none → ¬ event.about id)
    (hreplaces : ∀ entry ∈ s.registryChecks, ¬ event.replaces entry.1)
    (hcause : ReuseCause s.history event)
    (hagree : ∀ i id key value, event = .reused i id key value → ∀ j other, .reused j id key other ∈ s.history →
      value = other) : (s.log event).Sound where
  scopes id scope hscope := by
    by_cases habout : event.about id
    · exact hscopes id scope hscope habout
    · exact (h.scopes id scope hscope).log habout
  fresh id hid other hother := by
    rcases List.mem_append.mp hother with hother | hother
    · exact h.fresh id hid other hother
    · rw [List.mem_singleton.mp hother]
      exact hfresh id hid
  calls i call hcall := (h.calls i call hcall).mono (le_refl _)
  checks := h.checks.log (le_refl _) hreplaces
  explained := h.explained.concat hcause
  agree i j id key value other hi hj := by
    by_cases he : event = .reused i id key value
    · by_cases he' : event = .reused j id key other
      · rw [he] at he'
        cases he'
        rfl
      · exact hagree i id key value he j other (mem_concat_of_ne hj he')
    · by_cases he' : event = .reused j id key other
      · exact (hagree j id key other he' i value (mem_concat_of_ne hi he)).symm
      · exact h.agree i j id key value other (mem_concat_of_ne hi he) (mem_concat_of_ne hj he')

/-- An event that is about no request. -/
theorem Sound.logOther (h : s.Sound) (habout : ∀ id, ¬ event.about id)
    (hreplaces : ∀ entry ∈ s.registryChecks, ¬ event.replaces entry.1) (hcause : ReuseCause s.history event) :
    (s.log event).Sound := by
  apply h.log _ (fun id _ => habout id) hreplaces hcause
  · rintro i id key value rfl
    exact absurd rfl (habout id)
  · exact fun id _ _ ha => absurd ha (habout id)

theorem Sound.setStage (h : s.Sound) (i : ℕ) (call : ScopedCall υ) (stage : CallStage υ)
    (hstage : ({ call with stage } : ScopedCall υ).Sound s.history s.now i) : (s.setStage i call stage).Sound where
  scopes := h.scopes
  fresh := h.fresh
  calls j other hother := by
    by_cases hj : j = i
    · subst hj
      rw [setStage_self] at hother
      cases hother
      exact hstage
    · rw [setStage_other hj] at hother
      exact h.calls j other hother
  checks := h.checks
  explained := h.explained
  agree := h.agree

/-- A request whose record stays right. -/
theorem Sound.setScope (h : s.Sound) (id : ℕ) (hid : s.scopes id ≠ none) (hscope : scope.Sound s.history id) :
    (s.setScope id scope).Sound where
  scopes other found hfound := by
    by_cases ho : other = id
    · subst ho
      rw [setScope_self] at hfound
      cases hfound
      exact hscope
    · rw [setScope_other ho] at hfound
      exact h.scopes other found hfound
  fresh other hother := by
    by_cases ho : other = id
    · subst ho
      rw [setScope_self] at hother
      cases hother
    · rw [setScope_other ho] at hother
      exact h.fresh other hother
  calls := h.calls
  checks := h.checks
  explained := h.explained
  agree := h.agree

/-- Another read of a request is reused, of one that was executed in it. -/
theorem Sound.logReused (h : s.Sound) (hscope : s.scopes id = some scope) {entry : CaptureKey × υ} {key : CaptureKey}
    (hfound : Keyed.find (·.1) key scope.reads = some entry) :
    (s.log (.reused i id key entry.2)).Sound := by
  obtain ⟨hmem,rfl⟩ := Keyed.mem_of_find hfound
  have hsound := h.scopes id scope hscope
  have hreuse : scope.reuseReads = true := by
    by_contra hclosed
    rw [hsound.closed (by simpa using hclosed)] at hmem
    cases hmem
  obtain ⟨hreusable,hexecuted⟩ := hsound.reads entry hmem
  obtain ⟨request,hbegan,-,hreads⟩ := hsound.began
  have hcause : ReuseCause s.history (.reused i id entry.1 entry.2) :=
    ⟨hreusable,⟨request,hbegan,hreads hreuse⟩,hsound.running hreuse,hexecuted⟩
  apply h.log _ _ (fun _ _ hr => by cases hr) hcause
  · intro j other key value he k found hk
    cases he
    have hkept := hsound.kept hreuse k entry.1 found hk
    rw [hfound] at hkept
    exact Option.some.inj hkept
  · rintro other found hother rfl
    rw [hscope] at hother
    cases hother
    apply hsound.logAbout (fun he => by cases he)
    intro j key value he
    cases he
    rw [hfound]
    rfl
  · rintro other hother rfl
    rw [hscope] at hother
    cases hother

theorem Sound.finish (h : s.Sound) (hscope : s.scopes id = some scope) :
    ((s.setScope id { scope with active := false, reuseReads := false, reads := [] }).log (.ended id)).Sound := by
  obtain ⟨request,hbegan,hchecks,-⟩ := (h.scopes id scope hscope).began
  have hclosed : ∀ {history : List (ScopeEvent υ)}, .began id request ∈ history →
      ({ scope with active := false, reuseReads := false, reads := [] } : RequestScope υ).Sound history id := by
    intro history hbegan
    refine ⟨⟨request,hbegan,hchecks,fun he => by cases he⟩,fun he => (by cases he),fun _ => rfl,
      fun _ he => (by cases he),fun he => (by cases he)⟩
  have hset := h.setScope id (by rw [hscope]; exact Option.some_ne_none _) (hclosed hbegan)
  have hcause : ReuseCause s.history (.ended id) := trivial
  apply hset.log _ _ (fun _ _ hr => by cases hr) hcause (fun _ _ _ _ he => by cases he)
  · rintro other found hother rfl
    rw [setScope_self] at hother
    cases hother
    exact hclosed (List.mem_append_left _ hbegan)
  · rintro other hother rfl
    rw [setScope_self] at hother
    cases hother

theorem Sound.begin (h : s.Sound) (hnone : s.scopes id = none) (request : RequestLine) :
    ((s.setScope id (requestScope request)).log (.began id request)).Sound := by
  have hnew : ∀ event ∈ s.history ++ [ScopeEvent.began id request],
      event.about id → event = .began id request := by
    intro event he habout
    rcases List.mem_append.mp he with he | he
    · exact absurd habout (h.fresh id hnone event he)
    · exact List.mem_singleton.mp he
  constructor
  · intro other scope hscope
    by_cases ho : other = id
    · subst ho
      change (s.setScope _ _).scopes _ = _ at hscope
      rw [setScope_self] at hscope
      cases hscope
      refine ⟨⟨request,by simp [ScopeState.log],rfl,fun hreuse => hreuse⟩,?_,fun _ => rfl,fun _ he => (by cases he),?_⟩
      · intro _ hended
        cases hnew _ hended rfl
      · intro _ i key value hreused
        cases hnew _ hreused rfl
    · change (s.setScope _ _).scopes _ = _ at hscope
      rw [setScope_other ho] at hscope
      exact (h.scopes other scope hscope).log fun habout => ho habout.symm
  · intro other hother event hevent
    have ho : other ≠ id := by
      rintro rfl
      change (s.setScope _ _).scopes _ = _ at hother
      rw [setScope_self] at hother
      cases hother
    change (s.setScope _ _).scopes _ = _ at hother
    rw [setScope_other ho] at hother
    rcases List.mem_append.mp hevent with hevent | hevent
    · exact h.fresh other hother event hevent
    · rw [List.mem_singleton.mp hevent]
      exact fun habout => ho habout.symm
  · exact fun j call hcall => (h.calls j call hcall).mono (le_refl _)
  · exact h.checks.log (le_refl _) fun _ _ hr => hr
  · exact h.explained.concat trivial
  · intro i j scope key value other hi hj
    exact h.agree i j scope key value other (mem_concat_of_ne hi fun he => by cases he)
      (mem_concat_of_ne hj fun he => by cases he)

theorem Sound.wait (h : s.Sound) {time : ℚ} (htime : s.now ≤ time) : ({ s with now := time } : ScopeState υ).Sound where
  scopes := h.scopes
  fresh := h.fresh
  calls i call hcall := by
    have hmono : call.Sound (s.history ++ []) time i := (h.calls i call hcall).mono htime
    rwa [List.append_nil] at hmono
  checks := ⟨h.checks.nodup,h.checks.few,h.checks.ordered,fun entry he => (h.checks.past entry he).trans htime,
    h.checks.latest⟩
  explained := h.explained
  agree := h.agree

/-- Some recorded checks are dropped. -/
theorem Sound.dropChecks (h : s.Sound) {fewer : List (ManifestKey × ℚ)} (hs : fewer.Sublist s.registryChecks) :
    ({ s with registryChecks := fewer } : ScopeState υ).Sound :=
  ⟨h.scopes,h.fresh,h.calls,h.checks.sublist hs,h.explained,h.agree⟩

theorem Sound.start (h : s.Sound) {new : ScopedCall υ} (hcall : new.Sound s.history s.now i) :
    (s.start i new).Sound :=
  h.setStage i new new.stage hcall

/-- A check is recorded, and all recorded checks stay right. -/
theorem Sound.logRecorded (h : s.Sound) {key : ManifestKey} {earlier : ℚ} (hearlier : earlier ≤ s.now)
    (hpassed : .passed i key earlier ∈ s.history)
    (hchecks : ChecksSound (s.history ++ [.recorded i key s.now]) s.now checks) :
    ({ s with registryChecks := checks }.log (.recorded i key s.now)).Sound := by
  have hcause : ReuseCause s.history (.recorded i key s.now) := ⟨earlier,hearlier,hpassed⟩
  have hne : ∀ j id other value, (.recorded i key s.now : ScopeEvent υ) ≠ .reused j id other value :=
    fun _ _ _ _ he => by cases he
  constructor
  · intro id scope hscope
    exact (h.scopes id scope hscope).log fun habout => habout
  · intro id hid event hevent
    rcases List.mem_append.mp hevent with hevent | hevent
    · exact h.fresh id hid event hevent
    · rw [List.mem_singleton.mp hevent]
      exact fun habout => habout
  · exact fun j call hcall => (h.calls j call hcall).mono (le_refl _)
  · exact hchecks
  · exact h.explained.concat hcause
  · intro j k id key value other hj hk
    exact h.agree j k id key value other (mem_concat_of_ne hj (hne _ _ _ _)) (mem_concat_of_ne hk (hne _ _ _ _))

theorem Sound.record (h : s.Sound) {key : ManifestKey} {earlier : ℚ} (hearlier : earlier ≤ s.now)
    (hpassed : .passed i key earlier ∈ s.history) :
    ({ s with registryChecks := s.recordCheck key }.log (.recorded i key s.now)).Sound :=
  h.logRecorded hearlier hpassed (h.checks.record i key)

/-! Steps and runs -/

theorem exists_of_any {α : Type} {p : α → Bool} {o : Option α} (h : o.any p = true) : ∃ a, o = some a ∧ p a = true := by
  cases o with
  | none => cases h
  | some a => exact ⟨a,rfl,h⟩

theorem Sound.lookUp (h : s.Sound) (hscope : s.scopes id = some scope) {key : CaptureKey}
    (hreusable : isReusableRead key.argv = true) : (s.lookUp i call id scope key).Sound := by
  rw [ScopeState.lookUp]
  split
  · rename_i entry hfound
    have hlogged := h.logReused (i := i) hscope hfound
    have hset := hlogged.setScope id (by
      change s.scopes id ≠ none
      rw [hscope]
      exact Option.some_ne_none _) ((hlogged.scopes id scope hscope).counted (scope.reused + 1))
    exact hset.setStage i call .done trivial
  · exact h.setStage _ _ (.executing key true) fun _ => hreusable

theorem Sound.store (h : s.Sound) (hscope : s.scopes id = some scope) {key : CaptureKey} {value : υ}
    (hreusable : isReusableRead key.argv = true) (hexecuted : .executed i (some id) key value ∈ s.history) :
    (s.store i call id scope key value).Sound := by
  rw [ScopeState.store]
  split
  · rename_i hstores
    rw [Bool.and_eq_true] at hstores
    have hset := h.setScope id (by
      rw [hscope]
      exact Option.some_ne_none _) ((h.scopes id scope hscope).stored hstores.1 hreusable hexecuted)
    exact hset.setStage _ _ .done trivial
  · exact h.setStage _ _ .done trivial

theorem Sound.lookUpCheck (h : s.Sound) (hscope : s.scopes id = some scope) {key : ManifestKey} {time : ℚ}
    {request : RequestLine} (hbegan : .began id request ∈ s.history) (hchecks : reusesRegistryChecks request = true) :
    (s.lookUpCheck i call id scope key time).Sound := by
  rw [ScopeState.lookUpCheck]
  split
  · rename_i hfound
    obtain ⟨entry,hentry,hrecent⟩ := exists_of_any hfound
    obtain ⟨hmem,rfl⟩ := Keyed.mem_of_find hentry
    obtain ⟨j,hj⟩ := h.checks.latest entry hmem
    have hcause : ReuseCause s.history (.skipped i id entry.1 time) :=
      ⟨⟨request,hbegan,hchecks⟩,j,entry.2,hj,of_decide_eq_true hrecent⟩
    have hlogged := h.logOther (fun _ ha => by cases ha) (fun _ _ hr => by cases hr) hcause
    have hset := hlogged.setScope id (by
      change s.scopes id ≠ none
      rw [hscope]
      exact Option.some_ne_none _) ((hlogged.scopes id scope hscope).counted (scope.reused + 1))
    exact hset.setStage i call .done trivial
  · have hsub : (Keyed.remove (·.1) key s.registryChecks).Sublist s.registryChecks := Keyed.remove_sublist
    have hdropped := (h.dropChecks hsub).setStage i call (.runningCheck key true) trivial
    refine hdropped.logOther (fun _ ha => ha) (fun entry he hr => ?_) trivial
    exact (Keyed.mem_remove.mp he).2 (Eq.symm hr)

theorem Sound.advance (h : s.Sound) (hcall : s.calls i = some call) {outcome : Option υ} {t : ScopeState υ}
    (ht : s.advance i call outcome = some t) : t.Sound := by
  have hsound := h.calls i call hcall
  rw [ScopedCall.Sound] at hsound
  rw [ScopeState.advance] at ht
  cases hstage : call.stage with
  | capturing key =>
    rw [hstage] at ht
    dsimp only at ht
    split at ht
    · rename_i hreuses
      rw [Bool.and_eq_true] at hreuses
      cases ht
      exact h.setStage _ _ (.lookingUp key) hreuses.1
    · cases ht
      exact h.setStage _ _ (.executing key false) fun he => by cases he
  | lookingUp key =>
    rw [hstage] at ht hsound
    obtain ⟨id,-,ht⟩ := Option.bind_eq_some_iff.mp ht
    obtain ⟨scope,hscope,ht⟩ := Option.bind_eq_some_iff.mp ht
    cases ht
    exact h.lookUp hscope hsound
  | executing key stores =>
    rw [hstage] at ht hsound
    cases outcome with
    | none =>
      cases ht
      exact h.setStage _ _ .done trivial
    | some value =>
      cases ht
      have hlogged : (s.log (.executed i call.scope key value)).Sound :=
        h.logOther (fun _ ha => ha) (fun _ _ hr => hr) trivial
      cases stores with
      | true => exact hlogged.setStage _ _ (.storing key value) ⟨hsound rfl,by simp [ScopeState.log]⟩
      | false => exact hlogged.setStage _ _ .done trivial
  | storing key value =>
    rw [hstage] at ht hsound
    obtain ⟨id,hid,ht⟩ := Option.bind_eq_some_iff.mp ht
    obtain ⟨scope,hscope,ht⟩ := Option.bind_eq_some_iff.mp ht
    cases ht
    dsimp only at hsound
    rw [hid] at hsound
    exact h.store hscope hsound.1 hsound.2
  | checking key =>
    rw [hstage] at ht
    dsimp only at ht
    split at ht
    · rename_i hreuses
      cases ht
      obtain ⟨scope,hscope,hflags⟩ := exists_of_any hreuses
      obtain ⟨id,hid,hscope⟩ := Option.bind_eq_some_iff.mp hscope
      rw [Bool.and_eq_true] at hflags
      obtain ⟨request,hbegan,hchecks,-⟩ := (h.scopes id scope hscope).began
      exact h.setStage _ _ (.lookingUpCheck key s.now) ⟨id,request,hid,hbegan,hchecks.symm.trans hflags.2⟩
    · cases ht
      exact h.setStage _ _ (.runningCheck key false) trivial
  | lookingUpCheck key time =>
    rw [hstage] at ht hsound
    obtain ⟨id,hid,ht⟩ := Option.bind_eq_some_iff.mp ht
    obtain ⟨scope,hscope,ht⟩ := Option.bind_eq_some_iff.mp ht
    cases ht
    obtain ⟨other,request,hother,hbegan,hchecks⟩ := hsound
    rw [hid] at hother
    cases hother
    exact h.lookUpCheck hscope hbegan hchecks
  | runningCheck key records =>
    rw [hstage] at ht
    dsimp only at ht
    split at ht
    · cases ht
      exact h.setStage _ _ .done trivial
    · cases ht
      have hlogged : (s.log (.passed i key s.now)).Sound :=
        h.logOther (fun _ ha => ha) (fun _ _ hr => hr) trivial
      cases records with
      | true => exact hlogged.setStage _ _ (.recording key) ⟨s.now,le_refl _,by simp [ScopeState.log]⟩
      | false => exact hlogged.setStage _ _ .done trivial
  | recording key =>
    rw [hstage] at ht hsound
    cases ht
    obtain ⟨earlier,hearlier,hpassed⟩ := hsound
    exact (h.record hearlier hpassed).setStage _ _ .done trivial
  | done =>
    rw [hstage] at ht
    cases ht

theorem Sound.step {action : ScopeAction υ} {t : ScopeState υ} (h : s.Sound) (ht : ScopeState.step s action = some t) :
    t.Sound := by
  cases action with
  | wait time =>
    rw [ScopeState.step] at ht
    split at ht
    · cases ht
      exact h.wait ‹_›
    · cases ht
  | begin id request =>
    rw [ScopeState.step] at ht
    split at ht
    · cases ht
      exact h.begin ‹_› request
    · cases ht
  | finish id =>
    rw [ScopeState.step] at ht
    split at ht
    · cases ht
    · cases ht
      exact h.finish ‹_›
  | capture i scope key =>
    rw [ScopeState.step] at ht
    split at ht
    · cases ht
      exact h.start trivial
    · cases ht
  | check i scope key =>
    rw [ScopeState.step] at ht
    split at ht
    · cases ht
      exact h.start trivial
    · cases ht
  | advance i outcome =>
    obtain ⟨call,hcall,ht⟩ := Option.bind_eq_some_iff.mp ht
    exact h.advance hcall ht
  | clearRegistryChecks =>
    cases ht
    exact (h.dropChecks (List.nil_sublist _)).logOther (fun _ ha => ha) (fun _ he => by cases he) trivial

theorem sound_start : ({} : ScopeState υ).Sound where
  scopes _ _ h := by cases h
  fresh _ _ _ h := by cases h
  calls _ _ h := by cases h
  checks := ⟨List.nodup_nil,Nat.zero_le _,.nil,fun _ h => (by cases h),fun _ h => (by cases h)⟩
  explained := caused_nil
  agree _ _ _ _ _ _ h := by cases h

theorem sound_run {actions : List (ScopeAction υ)}
    (h : System.run ScopeState.step ({} : ScopeState υ) actions = some s) : s.Sound :=
  System.run_keeps (fun _ _ _ => Sound.step) sound_start h

end ScopeState

theorem reads_reused_within_request {actions : List (ScopeAction υ)}
    (h : System.run ScopeState.step ({} : ScopeState υ) actions = some s) :
    (∀ before i scope key value after, s.history = before ++ .reused i scope key value :: after →
      ReadsState key.argv ∧ (∃ request, .began scope request ∈ before ∧ reusesReads request = true) ∧
        .ended scope ∉ before ∧ ∃ j, .executed j (some scope) key value ∈ before) ∧
      ∀ i j scope key value other, .reused i scope key value ∈ s.history → .reused j scope key other ∈ s.history →
        value = other := by
  have hsound := ScopeState.sound_run h
  refine ⟨fun before i scope key value after he => ?_,hsound.agree⟩
  obtain ⟨hreads,hbegan,hended,hexecuted⟩ := hsound.explained before _ after he
  exact ⟨isReusableRead_iff.mp hreads,hbegan,hended,hexecuted⟩

def plansRequest : RequestLine := { method := "POST".toList, path := "/api/v1/plans".toList }

def applyRequest : RequestLine := { method := "POST".toList, path := "/api/v1/plans/apply".toList }

def dockerPs : CaptureKey := { argv := ["docker".toList,"ps".toList] }

/-- Two calls of one request read the same, and a third one after the request. -/
def sharedRead : List (ScopeAction ℕ) :=
  [.begin 0 plansRequest,.capture 0 (some 0) dockerPs,.advance 0 none,.advance 0 none,.advance 0 (some 7),
    .advance 0 none,.capture 1 (some 0) dockerPs,.advance 1 none,.advance 1 none,.finish 0,
    .capture 2 (some 0) dockerPs,.advance 2 none,.advance 2 (some 8)]

theorem reads_reused_within_request_shared : ReadsState dockerPs.argv ∧
    ∃ j, (.executed j (some 0) dockerPs 7 : ScopeEvent ℕ) ∈
      [.began 0 plansRequest,.executed 0 (some 0) dockerPs 7] := by
  have hrun : System.run ScopeState.step {} sharedRead = some _ := rfl
  have h := (reads_reused_within_request hrun).1 [.began 0 plansRequest,.executed 0 (some 0) dockerPs 7] 1 0 dockerPs 7
    [.ended 0,.executed 2 (some 0) dockerPs 8] rfl
  exact ⟨h.1,h.2.2.2⟩

theorem checks_skipped_after_success {actions : List (ScopeAction υ)}
    (h : System.run ScopeState.step ({} : ScopeState υ) actions = some s) :
    s.registryChecks.length ≤ registryCheckLimit ∧
      ∀ before i scope key now after, s.history = before ++ .skipped i scope key now :: after →
        (∃ request, .began scope request ∈ before ∧ reusesRegistryChecks request = true) ∧ ∃ j time earlier,
          earlier ≤ time ∧ .passed j key earlier ∈ before ∧ Standing (·.replaces key) before (.recorded j key time) ∧
            now - time < registryCheckTtlSeconds := by
  have hsound := ScopeState.sound_run h
  refine ⟨hsound.checks.few,fun before i scope key now after he => ?_⟩
  obtain ⟨hbegan,j,time,hlatest,hrecent⟩ := hsound.explained before _ after he
  refine ⟨hbegan,j,time,?_⟩
  obtain ⟨front,back,hbefore,-⟩ := id hlatest
  rw [hbefore,List.append_assoc,List.cons_append] at he
  obtain ⟨earlier,hearlier,hpassed⟩ := hsound.explained front _ _ he
  refine ⟨earlier,hearlier,?_,hlatest,hrecent⟩
  rw [hbefore]
  exact List.mem_append_left _ hpassed

def alpineCheck : ManifestKey := { executable := "docker".toList, image := "alpine:3".toList }

/-- A check that passed is skipped in another request, and run again when it is older. -/
def sharedCheck : List (ScopeAction ℕ) :=
  [.begin 0 plansRequest,.check 0 (some 0) alpineCheck,.advance 0 none,.advance 0 none,.wait 5,.advance 0 (some 1),
    .advance 0 none,.begin 1 applyRequest,.wait 200,.check 1 (some 1) alpineCheck,.advance 1 none,.advance 1 none,
    .wait 305,.check 2 (some 1) alpineCheck,.advance 2 none,.advance 2 none]

def sharedCheckHistory : List (ScopeEvent ℕ) :=
  [.began 0 plansRequest,.missed 0 alpineCheck,.passed 0 alpineCheck 5,.recorded 0 alpineCheck 5,.began 1 applyRequest]

theorem checks_skipped_after_success_shared : ∃ j time earlier, earlier ≤ time ∧
    .passed j alpineCheck earlier ∈ sharedCheckHistory ∧
      Standing (·.replaces alpineCheck) sharedCheckHistory (.recorded j alpineCheck time) ∧
        200 - time < registryCheckTtlSeconds := by
  have hrun : (System.run ScopeState.step {} sharedCheck).map (·.history) =
      some (sharedCheckHistory ++ [.skipped 1 1 alpineCheck 200,.missed 2 alpineCheck]) := by decide +kernel
  obtain ⟨s,hs,hhistory⟩ := Option.map_eq_some_iff.mp hrun
  have h := (checks_skipped_after_success hs).2 sharedCheckHistory 1 1 alpineCheck 200 _ hhistory
  exact h.2

end
end Wudup

import Wudup.Library.Traverse
import Wudup.RunnerMatching
import Wudup.Scheduler

/-! Which services a scheduled plan updates, and when they are the ones with a due policy. -/
namespace Wudup
open Library

/-- Matches of discovered stacks and of the lines of one file. -/
structure PendingMatches where
  found : List Match
  stack_eq : ∀ m ∈ found, ∀ m' ∈ found, m.stack.index = m'.stack.index → m.stack = m'.stack
  target_eq : ∀ m ∈ found, ∀ m' ∈ found, m.target.lineNo = m'.target.lineNo → m.target = m'.target
  positive : ∀ m ∈ found, 0 < m.target.lineNo

section
variable (parsed : ParsedTargets) (discovered : DiscoveredStacks) (containerImages : ContainerImages)
  (rematch : Bool)

theorem matchTargets_mem {m : Match} (hm : m ∈ (PlanMatching.matchTargets parsed.targets
    discovered.composeStacks containerImages true rematch).1) :
    m.target ∈ parsed.targets ∧ m.stack ∈ discovered.composeStacks := by
  rw [matchTargets_fst] at hm
  have hfound := (freshBy_sublist [] _).subset ((sortMatches_perm _).subset hm)
  obtain ⟨target,ht,hm⟩ := List.mem_flatMap.mp hfound
  obtain ⟨stack,hs,hm⟩ := List.mem_flatMap.mp hm
  obtain ⟨rfl,rfl⟩ := (plainFinder containerImages rematch).finds target stack m hm
  exact ⟨(List.mem_filter.mp ht).1,hs⟩

/-- The matches the pending lines are grouped by; lines are counted from one. -/
def pendingMatches (numbered : ∀ target ∈ parsed.targets, 0 < target.lineNo) : PendingMatches where
  found := (PlanMatching.matchTargets parsed.targets discovered.composeStacks containerImages true rematch).1
  stack_eq := fun _ hm _ hm' =>
    List.inj_on_of_nodup_map discovered.distinct (matchTargets_mem _ _ _ _ hm).2 (matchTargets_mem _ _ _ _ hm').2
  target_eq := fun _ hm _ hm' =>
    List.inj_on_of_nodup_map parsed.distinct (matchTargets_mem _ _ _ _ hm).1 (matchTargets_mem _ _ _ _ hm').1
  positive := fun _ hm => numbered _ (matchTargets_mem _ _ _ _ hm).1

end

namespace ScheduleInput
variable (input : ScheduleInput)

/-- The service has a due policy of the mode, waits for nothing, and the release is not skipped. -/
structure Allowed (mode key : Str) (release : Option ReleaseKey) : Prop where
  due : ∃ policy, input.policies.lookup key = some policy ∧ input.policyMode policy = mode
  ready : input.dependencyWaits key = []
  unskipped : ∀ skip ∈ skipsOf input.releaseSkips key, skipMatches skip release = false

def MatchAllowed (mode : Str) (m : Match) : Prop :=
  m.service ≠ [] ∧ input.Allowed mode (serviceKey m.stack.name m.service)
    (input.rules.releaseKey m.target.repo m.target.desiredTag m.target.digest)

/-- All services of one line in one stack are allowed. -/
structure ItemReady (mode name : Str) (item : PendingGroupingItem) : Prop where
  untagged : item.desiredTag = []
  served : ∃ service ∈ item.services, service ≠ []
  allowed : ∀ service ∈ item.services, service ≠ [] → input.Allowed mode (serviceKey name service)
    (input.rules.releaseKey item.repo item.desiredTag item.digest)

/-- A slot of a service of a ready item. -/
def Slot (groups : List PendingStackGroup) (t : ℤ) (mode : Str) : Prop :=
  ∃ group ∈ groups, ∃ item ∈ group.items, input.ItemReady mode group.name item ∧
    ∃ service ∈ item.services, service ≠ [] ∧
      ∃ policy, input.policies.lookup (serviceKey group.name service) = some policy ∧ policy.scheduledFor = t

/-- The mode of the earliest slot; of modes with equally early slots the first by name. -/
def FirstDue (groups : List PendingStackGroup) (mode : Str) : Prop :=
  ∃ t, input.Slot groups t mode ∧
    ∀ t' mode', input.Slot groups t' mode' → (toLex (t,mode) : ℤ ×ₗ Str) ≤ toLex (t',mode')

/-- A line with a ready item is ready in every stack it matches, and names the services it matches. -/
def LinesReady (p : PendingMatches) (mode : Str) : Prop :=
  ∀ group ∈ pendingStackGroups p.found, ∀ item ∈ group.items, input.ItemReady mode group.name item →
    (∀ m ∈ p.found, m.target.lineNo = item.lineNo → m.service ≠ []) ∧
      ∀ group' ∈ pendingStackGroups p.found, ∀ item' ∈ group'.items, item'.lineNo = item.lineNo →
        input.ItemReady mode group'.name item'

/-- Every match of the plan of a selection is allowed in the selected mode. -/
def SelectionSafe (host : SelectionHost) (p : PendingMatches) : Prop :=
  ∀ selection, input.autoUpdateSelection (pendingStackGroups p.found) = some selection →
    ∀ plan selections, autoUpdateMatches host p.found selection.lineNumbers = .ok (plan,selections) →
      ∀ m ∈ plan, input.MatchAllowed selection.updateMode m

end ScheduleInput

/-! The groups and the matches they are made of -/

section
variable {p : PendingMatches}

theorem mem_stacksToUpdate {stack : ComposeStack} :
    stack ∈ stacksToUpdate p.found ↔ ∃ m ∈ p.found, m.stack = stack := by
  simp only [stacksToUpdate,List.mem_filterMap,List.mem_insertionSort,mem_orderedUnique,List.mem_map,
    Option.map_eq_some_iff]
  constructor
  · rintro ⟨_,-,m,hm,rfl⟩
    exact ⟨m,List.mem_reverse.mp (List.mem_of_find?_eq_some hm),rfl⟩
  · rintro ⟨m,hm,rfl⟩
    have hsome : (p.found.reverse.find? (·.stack.index = m.stack.index)).isSome := by
      rw [List.find?_isSome]
      exact ⟨m,List.mem_reverse.mpr hm,by simp⟩
    obtain ⟨m',hm'⟩ := Option.isSome_iff_exists.mp hsome
    have hindex : m'.stack.index = m.stack.index := by simpa using List.find?_some hm'
    have hmem := List.mem_reverse.mp (List.mem_of_find?_eq_some hm')
    exact ⟨m.stack.index,⟨m,hm,rfl⟩,m',hm',p.stack_eq m' hmem m hm hindex⟩

/-- An item shows the target of some match, and the services its line matched in the stack. -/
structure ItemOf (found : List Match) (name : Str) (item : PendingGroupingItem) (m : Match) : Prop where
  mem : m ∈ found
  name : m.stack.name = name
  lineNo : item.lineNo = m.target.lineNo
  repo : item.repo = m.target.repo
  digest : item.digest = m.target.digest
  desiredTag : item.desiredTag = m.target.desiredTag
  services : ∀ service, service ∈ item.services ↔ service ≠ [] ∧
    ∃ m' ∈ found, m'.stack.index = m.stack.index ∧ m'.target.lineNo = m.target.lineNo ∧ m'.service = service

theorem pendingGroupingItem_some {lineMatches : List Match} {m : Match} (hm : m ∈ lineMatches) :
    ∃ first ∈ lineMatches, pendingGroupingItem lineMatches = some
      { lineNo := first.target.lineNo, repo := first.target.repo, digest := first.target.digest
        desiredTag := first.target.desiredTag
        services := orderedUnique ((lineMatches.map (·.service)).filter (· ≠ [])) } := by
  cases lineMatches with
  | nil => cases hm
  | cons first rest => exact ⟨first,by simp,rfl⟩

def lineMatches (found : List Match) (m : Match) : List Match :=
  (found.filter (·.stack.index = m.stack.index)).filter (·.target.lineNo = m.target.lineNo)

theorem mem_lineMatches {m m' : Match} : m' ∈ lineMatches p.found m ↔
    m' ∈ p.found ∧ m'.stack.index = m.stack.index ∧ m'.target.lineNo = m.target.lineNo := by
  simp [lineMatches,and_comm]

theorem itemOf_match {m : Match} (hm : m ∈ p.found) :
    ∃ item, pendingGroupingItem (lineMatches p.found m) = some item ∧ ItemOf p.found m.stack.name item m := by
  have hself : m ∈ lineMatches p.found m := mem_lineMatches.mpr ⟨hm,rfl,rfl⟩
  obtain ⟨first,hfirst,hitem⟩ := pendingGroupingItem_some hself
  obtain ⟨hfound,-,hline⟩ := mem_lineMatches.mp hfirst
  have htarget := p.target_eq first hfound m hm hline
  refine ⟨_,hitem,hm,rfl,hline,?_,?_,?_,?_⟩
  · rw [htarget]
  · rw [htarget]
  · rw [htarget]
  · intro service
    simp only [mem_orderedUnique,List.mem_filter,List.mem_map,mem_lineMatches,decide_eq_true_eq]
    constructor
    · rintro ⟨⟨m',⟨hm',hi,hl⟩,rfl⟩,hs⟩
      exact ⟨hs,m',hm',hi,hl,rfl⟩
    · rintro ⟨hs,m',hm',hi,hl,rfl⟩
      exact ⟨⟨m',⟨hm',hi,hl⟩,rfl⟩,hs⟩

/-- Every match has its item. -/
theorem exists_item {m : Match} (hm : m ∈ p.found) :
    ∃ group ∈ pendingStackGroups p.found, group.name = m.stack.name ∧
      ∃ item ∈ group.items, ItemOf p.found group.name item m := by
  obtain ⟨item,hitem,hof⟩ := itemOf_match hm
  refine ⟨_,List.mem_map_of_mem (mem_stacksToUpdate.mpr ⟨m,hm,rfl⟩),rfl,item,?_,hof⟩
  have hline : m.target.lineNo ∈ (p.found.filter (·.stack.index = m.stack.index)).map (·.target.lineNo) :=
    List.mem_map.mpr ⟨m,by simp [hm],rfl⟩
  rw [pendingGroupingItems,List.mem_filterMap]
  exact ⟨m.target.lineNo,by simpa using hline,hitem⟩

/-- Every item is that of a match. -/
theorem exists_match {group : PendingStackGroup} (hg : group ∈ pendingStackGroups p.found)
    {item : PendingGroupingItem} (hi : item ∈ group.items) : ∃ m, ItemOf p.found group.name item m := by
  obtain ⟨stack,hstack,rfl⟩ := List.mem_map.mp hg
  obtain ⟨lineNo,hline,hitem⟩ := List.mem_filterMap.mp hi
  simp only [List.mem_insertionSort,mem_orderedUnique,List.mem_map,List.mem_filter,decide_eq_true_eq] at hline
  obtain ⟨m,⟨hm,hindex⟩,rfl⟩ := hline
  obtain ⟨m₀,hm₀,rfl⟩ := mem_stacksToUpdate.mp hstack
  have hstack := p.stack_eq m hm m₀ hm₀ hindex
  obtain ⟨item',hitem',hof⟩ := itemOf_match hm
  rw [lineMatches,hindex,hitem] at hitem'
  obtain rfl := Option.some.inj hitem'
  exact ⟨m,by rw [← hstack]; exact hof⟩

end

/-! Candidates -/

theorem skipForRelease_eq_false {skips : SkipsByService} {keys : List Str} {release : Option ReleaseKey} :
    (skipForRelease skips keys release).2 = false ↔
      ∀ key ∈ keys, ∀ skip ∈ skipsOf skips key, skipMatches skip release = false := by
  have hall : (skipForRelease skips keys release).2 = false ↔
      (keys.flatMap (skipsOf skips)).find? (skipMatches · release) = none := by
    unfold skipForRelease
    cases hfind : (keys.flatMap (skipsOf skips)).find? (skipMatches · release) with
    | some skip => simp only [hfind,reduceCtorEq]
    | none => cases release <;> simp only [hfind]
  rw [hall,List.find?_eq_none]
  simp only [List.mem_flatMap,forall_exists_index,and_imp,Bool.not_eq_true]
  exact ⟨fun h key hk skip hs => h skip key hk hs,fun h skip key hk hs => h key hk skip hs⟩

theorem skipsOf_nil (key : Str) : skipsOf [] key = [] := rfl

namespace ScheduleInput
variable {input : ScheduleInput} {mode name : Str} {item : PendingGroupingItem} {c : AutoUpdateCandidate}

def itemKeys (name : Str) (item : PendingGroupingItem) : List Str :=
  (item.services.filter (· ≠ [])).map (serviceKey name)

theorem held_eq_false {keys : List Str} {release : Option ReleaseKey} : input.held keys release = false ↔
    ∀ key ∈ keys, ∀ skip ∈ skipsOf input.releaseSkips key, skipMatches skip release = false := by
  rw [← skipForRelease_eq_false,held]
  by_cases hno : input.releaseSkips = []
  · simp [hno,skipForRelease_eq_false,skipsOf_nil]
  · simp [hno]

theorem commonMode_eq_some {policies : List AutoUpdatePolicy} : input.commonMode policies = some mode ↔
    policies ≠ [] ∧ ∀ policy ∈ policies, input.policyMode policy = mode := by
  cases policies with
  | nil => simp [commonMode]
  | cons first rest =>
    by_cases hmode : ∃ policy ∈ rest, input.policyMode policy ≠ input.policyMode first
    · obtain ⟨policy,hp,hne⟩ := hmode
      have hnone : input.commonMode (first :: rest) = none :=
        if_pos (List.any_eq_true.mpr ⟨policy,hp,decide_eq_true hne⟩)
      rw [hnone]
      constructor
      · intro h
        cases h
      · intro ⟨_,hall⟩
        exact absurd ((hall policy (by simp [hp])).trans (hall first (by simp)).symm) hne
    · push Not at hmode
      have hsome : input.commonMode (first :: rest) = some (input.policyMode first) :=
        if_neg (by simpa using hmode)
      rw [hsome]
      constructor
      · intro h
        cases h
        simpa using hmode
      · intro ⟨_,hall⟩
        rw [hall first (by simp)]

/-- What a candidate is: the policies of all its services, of one mode, and no skip. -/
theorem candidate_spec : input.autoUpdateCandidateForItem name item = some (mode,c) ↔
    item.desiredTag = [] ∧
    (∀ key ∈ itemKeys name item, ∀ skip ∈ skipsOf input.releaseSkips key,
      skipMatches skip (input.rules.releaseKey item.repo item.desiredTag item.digest) = false) ∧
    c.lineNo = item.lineNo ∧ c.serviceKeys = itemKeys name item ∧
    (itemKeys name item).mapM (fun key => input.policies.lookup key) = some c.policies ∧
    c.policies ≠ [] ∧ ∀ policy ∈ c.policies, input.policyMode policy = mode := by
  rw [← held_eq_false,← commonMode_eq_some]
  unfold autoUpdateCandidateForItem
  rw [show (item.services.filter (· ≠ [])).map (serviceKey name) = itemKeys name item from rfl]
  generalize input.rules.releaseKey item.repo item.desiredTag item.digest = release
  obtain ⟨lineNo,serviceKeys,policies⟩ := c
  by_cases htag : item.desiredTag = []
  · cases hheld : input.held (itemKeys name item) release with
    | true => simp [htag,hheld]
    | false =>
      cases hmap : (itemKeys name item).mapM fun key => input.policies.lookup key with
      | none => simp [htag,hheld,hmap]
      | some found =>
        cases hmode : input.commonMode found with
        | none =>
          simp only [htag,hheld,hmap,ne_eq,not_true,if_false,Bool.false_eq_true,Option.bind_eq_bind,
            Option.bind_some,hmode,Option.bind_none,reduceCtorEq,true_and,Option.some.injEq,false_iff]
          rintro ⟨-,-,rfl,hm⟩
          simp [hmode] at hm
        | some mode' =>
          simp only [htag,hheld,hmap,ne_eq,not_true,if_false,Bool.false_eq_true,Option.bind_eq_bind,
            Option.bind_some,hmode,true_and,Option.some.injEq,Option.pure_def,Prod.mk.injEq,
            AutoUpdateCandidate.mk.injEq]
          constructor
          · rintro ⟨rfl,rfl,rfl,rfl⟩
            exact ⟨rfl,rfl,rfl,hmode⟩
          · rintro ⟨rfl,rfl,rfl,hm⟩
            exact ⟨Option.some.inj (hmode.symm.trans hm),rfl,rfl,rfl⟩
  · simp [htag]

theorem mem_itemKeys {key : Str} :
    key ∈ itemKeys name item ↔ ∃ service ∈ item.services, service ≠ [] ∧ serviceKey name service = key := by
  simp [itemKeys,and_assoc]

theorem eligible_ready (hc : input.autoUpdateCandidateForItem name item = some (mode,c))
    (hw : ∀ key ∈ c.serviceKeys, input.dependencyWaits key = []) : input.ItemReady mode name item := by
  obtain ⟨htag,hskip,-,hkeys,hmap,hne,hmode⟩ := candidate_spec.mp hc
  constructor
  · exact htag
  · obtain ⟨policy,hp⟩ := List.exists_mem_of_ne_nil _ hne
    obtain ⟨key,hkey,-⟩ := (mem_of_mapM_eq_some hmap).mp hp
    obtain ⟨service,hs,hnamed,-⟩ := mem_itemKeys.mp hkey
    exact ⟨service,hs,hnamed⟩
  · intro service hs hnamed
    have hkey : serviceKey name service ∈ itemKeys name item := mem_itemKeys.mpr ⟨service,hs,hnamed,rfl⟩
    have hpolicy : some <$> c.policies = (itemKeys name item).map fun key => input.policies.lookup key :=
      (mapM_eq_some.mp hmap).symm
    have hlookup : input.policies.lookup (serviceKey name service) ∈ some <$> c.policies := by
      rw [hpolicy]
      exact List.mem_map_of_mem hkey
    obtain ⟨policy,hp,hl⟩ := List.mem_map.mp hlookup
    exact ⟨⟨policy,hl.symm,hmode policy hp⟩,hw _ (hkeys ▸ hkey),hskip _ hkey⟩

theorem ready_eligible (h : input.ItemReady mode name item) :
    ∃ c, input.autoUpdateCandidateForItem name item = some (mode,c) ∧
      ∀ key ∈ c.serviceKeys, input.dependencyWaits key = [] := by
  have hallowed : ∀ key ∈ itemKeys name item, input.Allowed mode key
      (input.rules.releaseKey item.repo item.desiredTag item.digest) := by
    intro key hkey
    obtain ⟨service,hs,hnamed,rfl⟩ := mem_itemKeys.mp hkey
    exact h.allowed service hs hnamed
  have hlookup : ∀ key ∈ itemKeys name item, ∃ policy, input.policies.lookup key = some policy := by
    intro key hkey
    obtain ⟨policy,hl,-⟩ := (hallowed key hkey).due
    exact ⟨policy,hl⟩
  obtain ⟨policies,hmap⟩ := exists_mapM hlookup
  refine ⟨⟨item.lineNo,itemKeys name item,policies⟩,?_,fun key hkey => (hallowed key hkey).ready⟩
  apply candidate_spec.mpr
  refine ⟨h.untagged,fun key hkey => (hallowed key hkey).unskipped,rfl,rfl,hmap,?_,?_⟩
  · obtain ⟨service,hs,hnamed⟩ := h.served
    have hkey : serviceKey name service ∈ itemKeys name item := mem_itemKeys.mpr ⟨service,hs,hnamed,rfl⟩
    obtain ⟨policy,hl⟩ := hlookup _ hkey
    exact List.ne_nil_of_mem ((mem_of_mapM_eq_some hmap).mpr ⟨_,hkey,hl⟩)
  · intro policy hp
    obtain ⟨key,hkey,hl⟩ := (mem_of_mapM_eq_some hmap).mp hp
    obtain ⟨policy',hl',hmode⟩ := (hallowed key hkey).due
    obtain rfl := Option.some.inj (hl.symm.trans hl')
    exact hmode

section
variable {groups : List PendingStackGroup}

theorem mem_eligibleCandidates : c ∈ input.eligibleCandidates groups mode ↔
    ∃ group ∈ groups, ∃ item ∈ group.items, input.autoUpdateCandidateForItem group.name item = some (mode,c) ∧
      ∀ key ∈ c.serviceKeys, input.dependencyWaits key = [] := by
  simp only [eligibleCandidates,autoUpdateCandidates,List.mem_filter,List.mem_map,List.mem_flatMap,
    List.mem_filterMap,List.all_eq_true,decide_eq_true_eq]
  constructor
  · rintro ⟨⟨⟨mode',c'⟩,⟨⟨group,hg,item,hi,hc⟩,rfl⟩,rfl⟩,hw⟩
    exact ⟨group,hg,item,hi,hc,hw⟩
  · rintro ⟨group,hg,item,hi,hc,hw⟩
    exact ⟨⟨(mode,c),⟨⟨group,hg,item,hi,hc⟩,rfl⟩,rfl⟩,hw⟩

/-- The policies of a mode's eligible candidates are those of the services of its ready items. -/
theorem mem_eligible_policies {policy : AutoUpdatePolicy} :
    policy ∈ (input.eligibleCandidates groups mode).flatMap (·.policies) ↔
      ∃ group ∈ groups, ∃ item ∈ group.items, input.ItemReady mode group.name item ∧
        ∃ service ∈ item.services, service ≠ [] ∧
          input.policies.lookup (serviceKey group.name service) = some policy := by
  rw [List.mem_flatMap]
  constructor
  · intro ⟨c,hc,hp⟩
    obtain ⟨group,hg,item,hi,hc,hw⟩ := mem_eligibleCandidates.mp hc
    obtain ⟨-,-,-,-,hmap,-,-⟩ := candidate_spec.mp hc
    obtain ⟨key,hkey,hl⟩ := (mem_of_mapM_eq_some hmap).mp hp
    obtain ⟨service,hs,hnamed,rfl⟩ := mem_itemKeys.mp hkey
    exact ⟨group,hg,item,hi,eligible_ready hc hw,service,hs,hnamed,hl⟩
  · intro ⟨group,hg,item,hi,hready,service,hs,hnamed,hl⟩
    obtain ⟨c,hc,hw⟩ := ready_eligible hready
    obtain ⟨-,-,-,-,hmap,-,-⟩ := candidate_spec.mp hc
    have hp : policy ∈ c.policies :=
      (mem_of_mapM_eq_some hmap).mpr ⟨_,mem_itemKeys.mpr ⟨service,hs,hnamed,rfl⟩,hl⟩
    exact ⟨c,mem_eligibleCandidates.mpr ⟨group,hg,item,hi,hc,hw⟩,hp⟩

/-- The slots a mode is scheduled by are those of its ready items. -/
theorem slot_iff {t : ℤ} : input.Slot groups t mode ↔
    t ∈ ((input.eligibleCandidates groups mode).flatMap (·.policies)).map (·.scheduledFor) := by
  rw [List.mem_map]
  constructor
  · intro ⟨group,hg,item,hi,hready,service,hs,hnamed,policy,hl,ht⟩
    exact ⟨policy,mem_eligible_policies.mpr ⟨group,hg,item,hi,hready,service,hs,hnamed,hl⟩,ht⟩
  · intro ⟨policy,hp,ht⟩
    obtain ⟨group,hg,item,hi,hready,service,hs,hnamed,hl⟩ := mem_eligible_policies.mp hp
    exact ⟨group,hg,item,hi,hready,service,hs,hnamed,policy,hl,ht⟩

theorem scheduledForMode_eq_some {t : ℤ} : input.scheduledForMode groups mode = some t ↔
    input.Slot groups t mode ∧ ∀ t', input.Slot groups t' mode → t ≤ t' := by
  simp only [slot_iff]
  exact List.min?_eq_some_iff

theorem exists_scheduledFor {t : ℤ} (h : input.Slot groups t mode) :
    ∃ t', input.scheduledForMode groups mode = some t' := by
  rw [slot_iff] at h
  cases hmin : input.scheduledForMode groups mode with
  | some t' => exact ⟨t',rfl⟩
  | none =>
    rw [scheduledForMode,List.min?_eq_none_iff] at hmin
    rw [hmin] at h
    cases h

theorem mem_eligibleModes : mode ∈ input.eligibleModes groups ↔ ∃ t, input.Slot groups t mode := by
  simp only [eligibleModes,List.mem_filter,mem_sortedSet,Bool.and_eq_true,decide_eq_true_eq,
    Option.isSome_iff_exists]
  constructor
  · rintro ⟨-,-,t,ht⟩
    exact ⟨t,(scheduledForMode_eq_some.mp ht).1⟩
  · rintro ⟨t,ht⟩
    have hsome := exists_scheduledFor ht
    obtain ⟨group,hg,item,hi,hready,-⟩ := ht
    obtain ⟨c,hc,hw⟩ := ready_eligible hready
    have hmem : (mode,c) ∈ input.autoUpdateCandidates groups :=
      List.mem_flatMap.mpr ⟨group,hg,List.mem_filterMap.mpr ⟨item,hi,hc⟩⟩
    exact ⟨List.mem_map_of_mem hmem,List.ne_nil_of_mem (mem_eligibleCandidates.mpr ⟨group,hg,item,hi,hc,hw⟩),
      hsome⟩

theorem pairwise_eligibleModes : (input.eligibleModes groups).Pairwise (· ≤ ·) :=
  (pairwise_sortedSet _).filter _

theorem le_of_idxOf_le {α : Type} [Preorder α] [DecidableEq α] {xs : List α} (hs : xs.Pairwise (· ≤ ·)) {a b : α}
    (ha : a ∈ xs) (hb : b ∈ xs) (h : xs.idxOf a ≤ xs.idxOf b) : a ≤ b := by
  rcases h.lt_or_eq with hlt | heq
  · have hia := List.idxOf_lt_length_of_mem ha
    have hib := List.idxOf_lt_length_of_mem hb
    have hle := List.pairwise_iff_getElem.mp hs _ _ hia hib hlt
    simpa using hle
  · exact le_of_eq ((List.idxOf_inj ha).mp heq)

/-- The mode of a selection is the first one due. -/
theorem selection_firstDue {selection : AutoUpdateSelection}
    (h : input.autoUpdateSelection groups = some selection) :
    input.FirstDue groups selection.updateMode ∧
      ∀ lineNo, lineNo ∈ selection.lineNumbers ↔ ∃ group ∈ groups, ∃ item ∈ group.items,
        item.lineNo = lineNo ∧ input.ItemReady selection.updateMode group.name item := by
  obtain ⟨mode,hmode,h⟩ := Option.bind_eq_some_iff.mp h
  obtain ⟨t,ht,h⟩ := Option.bind_eq_some_iff.mp h
  cases h
  obtain ⟨hmem,hleast,hindex⟩ := List.mem_argmin_iff.mp hmode
  constructor
  · refine ⟨t,(scheduledForMode_eq_some.mp ht).1,?_⟩
    intro t' mode' hslot
    have hmem' := mem_eligibleModes.mpr ⟨t',hslot⟩
    obtain ⟨t₀,ht₀⟩ := exists_scheduledFor hslot
    have hle : t₀ ≤ t' := (scheduledForMode_eq_some.mp ht₀).2 t' hslot
    have hlt : t ≤ t₀ := by simpa [ht,ht₀] using hleast mode' hmem'
    rw [Prod.Lex.toLex_le_toLex]
    rcases (hlt.trans hle).lt_or_eq with hlt' | heq
    · exact Or.inl hlt'
    · have hback : t₀ ≤ t := by omega
      exact Or.inr ⟨heq,le_of_idxOf_le pairwise_eligibleModes hmem hmem'
        (hindex mode' hmem' (by simpa [ht,ht₀] using hback))⟩
  · intro lineNo
    simp only [List.mem_insertionSort,mem_orderedUnique,List.mem_map,mem_eligibleCandidates]
    constructor
    · rintro ⟨c,⟨group,hg,item,hi,hc,hw⟩,rfl⟩
      exact ⟨group,hg,item,hi,(candidate_spec.mp hc).2.2.1.symm,eligible_ready hc hw⟩
    · rintro ⟨group,hg,item,hi,rfl,hready⟩
      obtain ⟨c,hc,hw⟩ := ready_eligible hready
      exact ⟨c,⟨group,hg,item,hi,hc,hw⟩,(candidate_spec.mp hc).2.2.1⟩

/-- The first mode due is selected. -/
theorem FirstDue.selected (h : input.FirstDue groups mode) :
    ∃ selection, input.autoUpdateSelection groups = some selection ∧ selection.updateMode = mode := by
  obtain ⟨t,hslot,hfirst⟩ := h
  have hmem := mem_eligibleModes.mpr ⟨t,hslot⟩
  cases hmin : (input.eligibleModes groups).argmin fun mode => (input.scheduledForMode groups mode).getD 0 with
  | none => simp [List.argmin_eq_none.mp hmin] at hmem
  | some mode₀ =>
    obtain ⟨t₀,hslot₀⟩ := mem_eligibleModes.mp (List.argmin_mem hmin)
    obtain ⟨t₁,ht₁⟩ := exists_scheduledFor hslot₀
    have hsel : ∃ selection, input.autoUpdateSelection groups = some selection ∧
        selection.updateMode = mode₀ := by
      simp only [autoUpdateSelection,hmin,ht₁,Option.bind_eq_bind,Option.bind_some]
      exact ⟨_,rfl,rfl⟩
    obtain ⟨selection,hs,hm⟩ := hsel
    obtain ⟨⟨t₂,hslot₂,hfirst₂⟩,-⟩ := selection_firstDue hs
    have heq := le_antisymm (hfirst t₂ _ hslot₂) (hfirst₂ t mode hslot)
    have hmode : mode = selection.updateMode := congrArg (fun x : ℤ ×ₗ Str => (ofLex x).2) heq
    exact ⟨selection,hs,hmode.symm⟩

end

end ScheduleInput

/-! The plan of whole lines -/

section
variable {host : SelectionHost} {found : List Match} {lines : List ℕ}

theorem mixedLines_lineWide : mixedLines (lines.map lineWide) = [] := by
  refine mixedLines_eq_nil.mpr fun _ _ b hb _ _ => ?_
  obtain ⟨n,-,rfl⟩ := List.mem_map.mp hb
  rfl

theorem normalize_lineWide (hn : lines.Nodup) (hpos : ∀ n ∈ lines, 0 < n) :
    ∃ normalized, normalizeUpdateSelections (lines.map lineWide) = .ok normalized ∧
      normalized.Perm (lines.map lineWide) := by
  have hcheck : checkSelections [] (lines.map lineWide) = .ok () := by
    refine checkSelections_eq_ok.mpr ⟨?_,by simp,hn.map fun a b h => Int.ofNat.inj (congrArg UpdateSelection.lineNo h)⟩
    intro item hitem
    obtain ⟨n,hn,rfl⟩ := List.mem_map.mp hitem
    have hn := hpos n hn
    simp only [lineWide]
    omega
  refine ⟨_,?_,List.perm_insertionSort (fun a b => a.sortKey ≤ b.sortKey) (lines.map lineWide)⟩
  unfold normalizeUpdateSelections
  rw [hcheck]
  simp only [mixedLines_lineWide,ne_eq,not_true,if_false]
  rfl

/-- Whole lines take all their matches. -/
theorem autoUpdateMatches_eq (hne : lines ≠ []) (hn : lines.Nodup) (hpos : ∀ n ∈ lines, 0 < n) :
    ∃ selections, autoUpdateMatches host found lines =
      .ok (found.filter fun m => lines.contains m.target.lineNo,selections) := by
  obtain ⟨normalized,hnorm,hperm⟩ := normalize_lineWide hn hpos
  refine ⟨normalized,?_⟩
  have hmem : ∀ item, item ∈ normalized ↔ ∃ n ∈ lines, lineWide n = item := fun item => by
    rw [hperm.mem_iff,List.mem_map]
  have hsome : normalized ≠ [] := by
    intro hno
    rw [hno,List.nil_perm,List.map_eq_nil_iff] at hperm
    exact hne hperm
  have hselected : normalized.mapM (host.selectedMatches found) =
      .ok (normalized.map fun item => found.filter fun m => (m.target.lineNo : ℤ) = item.lineNo) := by
    apply mapM_ok
    intro item hitem
    obtain ⟨n,-,rfl⟩ := (hmem item).mp hitem
    exact if_pos rfl
  have hkeys : ∀ m ∈ found, (((normalized.map fun item => found.filter fun m =>
      (m.target.lineNo : ℤ) = item.lineNo).flatten.map Match.key).contains m.key) =
        lines.contains m.target.lineNo := by
    intro m hm
    rw [Bool.eq_iff_iff]
    simp only [List.contains_iff_mem,List.mem_map,List.mem_flatten]
    constructor
    · rintro ⟨m',⟨_,⟨item,hitem,rfl⟩,hm'⟩,hkey⟩
      obtain ⟨n,hline,rfl⟩ := (hmem item).mp hitem
      obtain ⟨-,hn'⟩ := List.mem_filter.mp hm'
      have hnat : m'.target.lineNo = n := Int.ofNat.inj (of_decide_eq_true hn')
      have hlines : m'.target.lineNo = m.target.lineNo := congrArg (·.2.1) hkey
      rw [← hlines,hnat]
      exact hline
    · intro hline
      exact ⟨m,⟨_,⟨lineWide m.target.lineNo,(hmem _).mpr ⟨_,hline,rfl⟩,rfl⟩,by simp [hm,lineWide]⟩,rfl⟩
  unfold autoUpdateMatches SelectionHost.filterMatchesForSelections
  rw [hnorm]
  simp only [bind,Except.bind,if_neg hsome,hselected,pure,Except.pure]
  rw [List.filter_congr hkeys]

end

namespace ScheduleInput
variable {input : ScheduleInput} {p : PendingMatches}

theorem plan_of_selection (host : SelectionHost) {selection : AutoUpdateSelection}
    (h : input.autoUpdateSelection (pendingStackGroups p.found) = some selection) :
    ∃ selections, autoUpdateMatches host p.found selection.lineNumbers =
      .ok (p.found.filter fun m => selection.lineNumbers.contains m.target.lineNo,selections) := by
  obtain ⟨⟨t,⟨group,hg,item,hi,hready,-⟩,-⟩,hlines⟩ := selection_firstDue h
  have hmem := (hlines item.lineNo).mpr ⟨group,hg,item,hi,rfl,hready⟩
  apply autoUpdateMatches_eq (List.ne_nil_of_mem hmem)
  · obtain ⟨mode,-,h⟩ := Option.bind_eq_some_iff.mp h
    obtain ⟨t,-,h⟩ := Option.bind_eq_some_iff.mp h
    cases h
    exact (List.perm_insertionSort _ _).nodup_iff.mpr (nodup_orderedUnique _)
  · intro n hn
    obtain ⟨group',hg',item',hi',rfl,-⟩ := (hlines n).mp hn
    obtain ⟨m,hm⟩ := exists_match hg' hi'
    rw [hm.lineNo]
    exact p.positive m hm.mem

/-- The scheduler updates only what it was told to exactly when each line of the mode first due that is
ready in one stack is ready wherever it matches. -/
theorem selection_safe_iff (input : ScheduleInput) (host : SelectionHost) (p : PendingMatches) :
    input.SelectionSafe host p ↔
      ∀ mode, input.FirstDue (pendingStackGroups p.found) mode → input.LinesReady p mode := by
  constructor
  · intro hsafe mode hfirst group hg item hi hready
    obtain ⟨selection,hsel,rfl⟩ := hfirst.selected
    obtain ⟨selections,hplan⟩ := plan_of_selection host hsel
    have hline := ((selection_firstDue hsel).2 item.lineNo).mpr ⟨group,hg,item,hi,rfl,hready⟩
    have hallowed : ∀ m ∈ p.found, m.target.lineNo = item.lineNo →
        input.MatchAllowed selection.updateMode m := by
      intro m hm he
      apply hsafe selection hsel _ _ hplan m
      rw [List.mem_filter]
      exact ⟨hm,by simpa [he] using hline⟩
    refine ⟨fun m hm he => (hallowed m hm he).1,?_⟩
    intro group' hg' item' hi' he
    obtain ⟨m₀,hm₀⟩ := exists_match hg hi
    obtain ⟨m,hm⟩ := exists_match hg' hi'
    have hlines : m.target.lineNo = item.lineNo := hm.lineNo.symm.trans he
    have htarget := p.target_eq m hm.mem m₀ hm₀.mem (hlines.trans hm₀.lineNo)
    constructor
    · rw [hm.desiredTag,htarget,← hm₀.desiredTag]
      exact hready.untagged
    · have hnamed := (hallowed m hm.mem hlines).1
      exact ⟨m.service,(hm.services _).mpr ⟨hnamed,m,hm.mem,rfl,rfl,rfl⟩,hnamed⟩
    · intro service hs _
      obtain ⟨-,m',hm',hindex,hline',rfl⟩ := (hm.services service).mp hs
      have hstack := p.stack_eq m' hm' m hm.mem hindex
      have htarget' := p.target_eq m' hm' m hm.mem hline'
      have hm'allowed := (hallowed m' hm' (hline'.trans hlines)).2
      rw [hstack,htarget',hm.name] at hm'allowed
      rw [hm.repo,hm.desiredTag,hm.digest]
      exact hm'allowed
  · intro hready selection hsel plan selections hplan m hm
    obtain ⟨hfirst,hlines⟩ := selection_firstDue hsel
    obtain ⟨_,hplan'⟩ := plan_of_selection host hsel
    rw [hplan] at hplan'
    obtain ⟨rfl,-⟩ := Prod.mk.inj (Except.ok.inj hplan')
    obtain ⟨hm,hline⟩ := List.mem_filter.mp hm
    obtain ⟨group,hg,item,hi,he,hitem⟩ := (hlines m.target.lineNo).mp (by simpa using hline)
    obtain ⟨hnamed,hall⟩ := hready _ hfirst group hg item hi hitem
    have hservice := hnamed m hm he.symm
    obtain ⟨group',hg',hname,item',hi',hof⟩ := exists_item hm
    have hitem' := hall group' hg' item' hi' (hof.lineNo.trans he.symm)
    have hallowed := hitem'.allowed m.service ((hof.services _).mpr ⟨hservice,m,hm,rfl,rfl,rfl⟩) hservice
    rw [hname,hof.repo,hof.desiredTag,hof.digest] at hallowed
    exact ⟨hservice,hallowed⟩

end ScheduleInput

section
/-- A stack with one service on a tag. -/
def taggedStack (index : ℕ) (name : Str) : ComposeStack :=
  { index, directory := "/srv/".toList ++ name, file := "compose.yaml".toList, name
    images := ["nginx:1".toList], serviceImages := [⟨"web".toList,"nginx:1".toList,[],[]⟩] }

/-- One line matches both stacks; only the first one's service has a policy. -/
def sharedLine : PendingMatches :=
  pendingMatches ⟨[digestTarget],by decide⟩ ⟨[taggedStack 1 "a".toList,taggedStack 2 "b".toList],by decide⟩
    [] false (by decide)

def onePolicy : ScheduleInput :=
  { updateMode := "live".toList, rules := ⟨fun _ _ => []⟩
    policies := [("a/web".toList,⟨"a/web".toList,[],"a/web|1".toList,0⟩)]
    releaseSkips := [], dependencySnoozes := [] }

def unscheduled : Match :=
  ⟨taggedStack 2 "b".toList,digestTarget,"nginx:1".toList,"nginx:1".toList,"web".toList⟩

/-- The plan also updates the service that nobody scheduled. -/
theorem unscheduled_service_updated :
    ¬∀ (input : ScheduleInput) (host : SelectionHost) (p : PendingMatches), input.SelectionSafe host p := by
  intro h
  have hsel : onePolicy.autoUpdateSelection (pendingStackGroups sharedLine.found) =
      some ⟨[1],["a/web".toList],["a/web|1".toList],0,"live".toList,[]⟩ := by decide
  have hplan : autoUpdateMatches ⟨id,fun _ => []⟩ sharedLine.found [1] =
      .ok (sharedLine.found,[⟨1,[]⟩]) := by decide
  have hmatch : unscheduled ∈ sharedLine.found := by decide
  obtain ⟨-,⟨policy,hpolicy,-⟩,-,-⟩ := h onePolicy ⟨id,fun _ => []⟩ sharedLine _ hsel _ _ hplan _ hmatch
  have hnone : onePolicy.policies.lookup (serviceKey unscheduled.stack.name unscheduled.service) = none := by
    decide
  rw [hnone] at hpolicy
  cases hpolicy

end
end Wudup

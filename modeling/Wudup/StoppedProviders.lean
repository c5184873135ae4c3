import Wudup.Library.Saturate
import Wudup.NetworkModes

/-! Running services that would be recreated without the network they use: the loop that finds them, and the least set
of services that it finds. -/
namespace Wudup
open Library

/-- The services that will not run, those of them that run now, and whether the pass found one. -/
structure BlockedScan where
  unavailable : List Str
  blocked : List Str := []
  changed : Bool := true
  deriving DecidableEq, Repr

def BlockedScan.visit (providers : ProviderMap) (scan : BlockedScan) (service : Str) : BlockedScan :=
  if service ∈ scan.unavailable then scan
  else if (providers.provider service).any scan.unavailable.contains then
    { unavailable := service :: scan.unavailable, blocked := scan.blocked ++ [service], changed := true }
  else scan

/-- Passes over the running services while one of them changes something; `none` where there are too few tests of the
loop's condition. -/
def blockedServices (providers : ProviderMap) (running : List Str) : ℕ → BlockedScan → Option (List Str)
  | 0, _ => none
  | tests + 1, scan =>
    if scan.changed then
      blockedServices providers running tests (running.foldl (BlockedScan.visit providers) { scan with changed := false })
    else some scan.blocked

def runningConsumersOfStoppedProviders (tests : ℕ) (running stopped : List Str) (providers : ProviderMap) :
    Option (List Str) := blockedServices providers running tests { unavailable := stopped }

/-- The service runs, and the network that it uses is that of a stopped service or of another such service. -/
inductive DependsOnStopped (providers : ProviderMap) (running stopped : List Str) : Str → Prop
  | stopped {service provider : Str} (hrunning : service ∈ running) (hnot : service ∉ stopped)
    (huses : providers.provider service = some provider) (hprovider : provider ∈ stopped) :
    DependsOnStopped providers running stopped service
  | consumer {service provider : Str} (hrunning : service ∈ running) (hnot : service ∉ stopped)
    (huses : providers.provider service = some provider)
    (hprovider : DependsOnStopped providers running stopped provider) :
    DependsOnStopped providers running stopped service

/-- The services of the set that cannot run hold every running service that uses a network of one of them. -/
def HoldsConsumers (providers : ProviderMap) (running stopped : List Str) (services : Set Str) : Prop :=
  ∀ service ∈ running, service ∉ stopped → ∀ provider ∈ providers.provider service,
    provider ∈ stopped ∨ provider ∈ services → service ∈ services

/-! One pass -/

/-- A running service is found when its provider is stopped or was found. -/
def consumerTest (providers : ProviderMap) (stopped found : List Str) (service : Str) : Bool :=
  !stopped.contains service && (providers.provider service).any fun provider =>
    stopped.contains provider || found.contains provider

section
variable {providers : ProviderMap} {running stopped found : List Str} {scan : BlockedScan}

theorem consumerTest_iff {service : Str} : consumerTest providers stopped found service = true ↔
    service ∉ stopped ∧ ∃ provider, providers.provider service = some provider ∧
      (provider ∈ stopped ∨ provider ∈ found) := by
  unfold consumerTest
  rw [Bool.and_eq_true,Bool.not_eq_true',List.contains_eq_mem,decide_eq_false_iff_not]
  cases providers.provider service with
  | none => simp
  | some provider => simp [Option.any]

theorem widening_consumerTest : Widening (consumerTest providers stopped) := by
  intro found more service hsub htest
  obtain ⟨hnot,provider,huses,hprovider⟩ := consumerTest_iff.mp htest
  exact consumerTest_iff.mpr ⟨hnot,provider,huses,hprovider.imp id fun hfound => hsub hfound⟩

/-- The scan has found these services and no others. -/
structure BlockedScan.Found (scan : BlockedScan) (stopped found : List Str) : Prop where
  blocked : scan.blocked = found
  unavailable : ∀ service, service ∈ scan.unavailable ↔ service ∈ stopped ∨ service ∈ found

theorem BlockedScan.Found.test_iff (h : scan.Found stopped found) {service : Str} :
    (service ∉ found ∧ consumerTest providers stopped found service = true) ↔
      service ∉ scan.unavailable ∧ (providers.provider service).any scan.unavailable.contains = true := by
  rw [consumerTest_iff,h.unavailable,not_or]
  cases providers.provider service with
  | none => simp
  | some provider =>
    simp [Option.any,h.unavailable]
    tauto

/-- A visit is one step of a pass. -/
theorem BlockedScan.Found.visit (providers : ProviderMap) (h : scan.Found stopped found) (service : Str) :
    (scan.visit providers service).Found stopped (tryAdd (consumerTest providers stopped) found service) ∧
    ((scan.visit providers service).changed = true ↔ scan.changed = true ∨
      service ∉ found ∧ consumerTest providers stopped found service = true) := by
  have htest : (service ∉ found ∧ consumerTest providers stopped found service = true) ↔ service ∉ scan.unavailable ∧
      (providers.provider service).any scan.unavailable.contains = true := h.test_iff
  unfold BlockedScan.visit
  by_cases hseen : service ∈ scan.unavailable
  · have hno : ¬ (service ∉ found ∧ consumerTest providers stopped found service = true) :=
      fun hfound => (htest.mp hfound).1 hseen
    rw [if_pos hseen,tryAdd_neg hno]
    exact ⟨h,by simp [hno]⟩
  · rw [if_neg hseen]
    by_cases huses : (providers.provider service).any scan.unavailable.contains = true
    · rw [if_pos huses,tryAdd_pos (htest.mpr ⟨hseen,huses⟩)]
      refine ⟨⟨by rw [h.blocked],fun other => ?_⟩,by simp [htest.mpr ⟨hseen,huses⟩]⟩
      rw [List.mem_cons,h.unavailable,List.mem_append,List.mem_singleton]
      tauto
    · have hno : ¬ (service ∉ found ∧ consumerTest providers stopped found service = true) :=
        fun hfound => huses (htest.mp hfound).2
      rw [if_neg huses,tryAdd_neg hno]
      exact ⟨h,by simp [hno]⟩

/-- The loop over the running services is a pass, and notes whether it adds something. -/
theorem BlockedScan.Found.foldl (providers : ProviderMap) (h : scan.Found stopped found) (services : List Str) :
    (services.foldl (BlockedScan.visit providers) scan).Found stopped
      (sweep (consumerTest providers stopped) found services) ∧
    ((services.foldl (BlockedScan.visit providers) scan).changed = true ↔
      scan.changed = true ∨ sweep (consumerTest providers stopped) found services ≠ found) := by
  induction services generalizing scan found with
  | nil => exact ⟨h,by simp [sweep]⟩
  | cons service services ih =>
    obtain ⟨hfound,hchanged⟩ := h.visit providers service
    obtain ⟨hall,hlast⟩ := ih hfound
    rw [List.foldl_cons,sweep_cons]
    refine ⟨hall,?_⟩
    rw [hlast,hchanged]
    by_cases htest : service ∉ found ∧ consumerTest providers stopped found service = true
    · have hgrows : sweep (consumerTest providers stopped) (found ++ [service]) services ≠ found := by
        intro heq
        have hlength := length_sweep (consumerTest providers stopped) (found ++ [service]) services
        rw [heq,List.length_append,List.length_singleton] at hlength
        omega
      rw [tryAdd_pos htest]
      simp [htest,hgrows]
    · rw [tryAdd_neg htest]
      simp [htest]

theorem blockedServices_eq (h : scan.Found stopped found) (hchanged : scan.changed = true) (passes : ℕ) :
    blockedServices providers running (passes + 1) scan =
      saturate (consumerTest providers stopped) running passes found := by
  induction passes generalizing scan found with
  | zero =>
    rw [blockedServices,if_pos hchanged]
    rfl
  | succ passes ih =>
    have hstart : ({ scan with changed := false } : BlockedScan).Found stopped found := ⟨h.blocked,h.unavailable⟩
    obtain ⟨hfound,hagain⟩ := hstart.foldl providers running
    rw [blockedServices,if_pos hchanged,saturate]
    by_cases hsame : sweep (consumerTest providers stopped) found running = found
    · have hdone : (running.foldl (BlockedScan.visit providers) { scan with changed := false }).changed = false := by
        rw [Bool.eq_false_iff,ne_eq,hagain]
        simp [hsame]
      rw [if_pos hsame,blockedServices,hdone,hfound.blocked,hsame]
      rfl
    · rw [if_neg hsame]
      exact ih hfound (hagain.mpr (.inr hsame))

/-! The result -/

theorem closedUnder_consumerTest {services : Set Str} :
    ClosedUnder (consumerTest providers stopped) running services ↔
      HoldsConsumers providers running stopped services := by
  constructor
  · intro h service hservice hnot provider huses hprovider
    obtain hstopped | hheld := hprovider
    · exact h service hservice [] (by simp) (consumerTest_iff.mpr ⟨hnot,provider,huses,.inl hstopped⟩)
    · refine h service hservice [provider] (fun other hother => List.mem_singleton.mp hother ▸ hheld) ?_
      exact consumerTest_iff.mpr ⟨hnot,provider,huses,.inr List.mem_cons_self⟩
  · intro h service hservice found hfound htest
    obtain ⟨hnot,provider,huses,hprovider⟩ := consumerTest_iff.mp htest
    exact h service hservice hnot provider huses (hprovider.imp id fun hmem => hfound provider hmem)

theorem isLeast_dependsOnStopped : IsLeast {services | HoldsConsumers providers running stopped services}
    {service | DependsOnStopped providers running stopped service} := by
  constructor
  · intro service hservice hnot provider huses hprovider
    obtain hstopped | hdepends := hprovider
    · exact .stopped hservice hnot huses hstopped
    · exact .consumer hservice hnot huses hdepends
  · intro services hservices service hdepends
    induction hdepends with
    | stopped hrunning hnot huses hprovider => exact hservices _ hrunning hnot _ huses (.inl hprovider)
    | consumer hrunning hnot huses _ ih => exact hservices _ hrunning hnot _ huses (.inr ih)

end

/-- However the loop visits the services, it ends after one test of its condition more than it can find services, with
the least set of running services that holds every consumer of a stopped service or of one in it. -/
theorem running_consumers_of_stopped_providers (providers : ProviderMap) (running stopped : List Str) :
    ∃ blocked, (∀ tests, running.length + 2 ≤ tests →
        runningConsumersOfStoppedProviders tests running stopped providers = some blocked) ∧
      blocked.Nodup ∧ (∀ service, service ∈ blocked ↔ DependsOnStopped providers running stopped service) ∧
      IsLeast {services | HoldsConsumers providers running stopped services} {service | service ∈ blocked} ∧
      ∀ running' stopped', (∀ service, service ∈ running' ↔ service ∈ running) →
        (∀ service, service ∈ stopped' ↔ service ∈ stopped) → ∀ tests blocked',
          runningConsumersOfStoppedProviders tests running' stopped' providers = some blocked' → blocked'.Perm blocked := by
  have hstart (stopped : List Str) : ({ unavailable := stopped } : BlockedScan).Found stopped [] := ⟨rfl,by simp⟩
  have hrun (running stopped : List Str) (passes : ℕ) :
      runningConsumersOfStoppedProviders (passes + 1) running stopped providers =
        saturate (consumerTest providers stopped) running passes [] := blockedServices_eq (hstart stopped) rfl passes
  have hall {running stopped : List Str} {tests : ℕ} {blocked : List Str}
      (h : runningConsumersOfStoppedProviders tests running stopped providers = some blocked) : blocked.Nodup ∧
        IsLeast {services | HoldsConsumers providers running stopped services} {service | service ∈ blocked} := by
    obtain _ | passes := tests
    · cases h
    · rw [hrun] at h
      have hleast := isLeast_saturate widening_consumerTest h
      simp only [closedUnder_consumerTest] at hleast
      exact ⟨nodup_saturate List.nodup_nil h,hleast⟩
  have hexists : ∃ blocked, saturate (consumerTest providers stopped) running (running.length + 1) [] = some blocked :=
    exists_saturate List.nodup_nil (List.nil_subset running) (fun _ hx => hx) (by simp)
  obtain ⟨blocked,hblocked⟩ := hexists
  have hfirst := (hrun running stopped (running.length + 1)).trans hblocked
  obtain ⟨hnodup,hleast⟩ := hall hfirst
  have hdepends {service : Str} : service ∈ blocked ↔ DependsOnStopped providers running stopped service := by
    have hsame := hleast.unique isLeast_dependsOnStopped
    exact Set.ext_iff.mp hsame service
  refine ⟨blocked,?_,hnodup,fun service => hdepends,hleast,?_⟩
  · intro tests htests
    obtain ⟨passes,rfl⟩ : ∃ n, tests = n + 1 := ⟨tests - 1,by omega⟩
    rw [hrun]
    exact saturate_mono (by omega) hblocked
  · intro running' stopped' hrunning hstopped tests blocked' h
    obtain ⟨hnodup',hleast'⟩ := hall h
    have hholds : {services | HoldsConsumers providers running' stopped' services} =
        {services | HoldsConsumers providers running stopped services} := by
      ext services
      simp only [Set.mem_ofPred_eq,HoldsConsumers,hrunning,hstopped]
    rw [hholds] at hleast'
    rw [List.perm_ext_iff_of_nodup hnodup' hnodup]
    exact fun service => Set.ext_iff.mp (hleast'.unique hleast) service

end Wudup

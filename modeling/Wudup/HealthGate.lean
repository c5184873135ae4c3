import Wudup.Library.Dict
import Wudup.Library.Unicode
import Wudup.Models

/-! The health gate of recreated services: their running containers, the summaries of these, and the wait. -/
namespace Wudup
open Library

namespace HealthGate

/-- One look at the containers: the IDs that `docker compose ps -q` lists for services, `none` for a command that
failed, the lines that `docker inspect` prints of a container, and whether the time is up. -/
structure HealthPoll where
  psQuietChecked : List Str → Option (List Str)
  tryInspect : Str → List Str
  timedOut : Bool

structure RunningContainers where
  cids : List Str := []
  missing : List Str := []
  failed : List Str := []
  deriving DecidableEq, Repr

/-- Names a failed lookup of the whole stack, where no service was selected. -/
def allServicesLookup : Str := "(all services)".toList

/-- The containers of one more service; a container that was listed before counts once. -/
def RunningContainers.addService (ps : List Str → Option (List Str)) (found : RunningContainers) (service : Str) :
    RunningContainers :=
  match ps [service] with
  | none => { found with failed := found.failed ++ [service] }
  | some serviceCids =>
    { found with
      missing := if serviceCids = [] then found.missing ++ [service] else found.missing
      cids := serviceCids.foldl (fun cids cid => if cid ∈ cids then cids else cids ++ [cid]) found.cids }

def runningServiceContainers (ps : List Str → Option (List Str)) (services : List Str) : RunningContainers :=
  if services = [] then
    match ps [] with
    | none => { failed := [allServicesLookup] }
    | some cids => { cids }
  else (orderedUnique services).foldl (RunningContainers.addService ps) {}

structure ContainerSummary where
  name : Str
  status : Str
  health : Str
  restarts : Str
  exitCode : Str
  deriving DecidableEq, Repr

/-- Parts that are not there are empty; bars after the fourth one belong to the last part. -/
def splitSummary (summary : Str) : ContainerSummary :=
  let parts := summary.splitOn '|'
  { name := parts.getD 0 []
    status := parts.getD 1 []
    health := parts.getD 2 []
    restarts := parts.getD 3 []
    exitCode := ['|'].intercalate (parts.drop 4) }

def noHealth : Str := "none".toList
def healthyState : Str := "healthy".toList
def runningStatus : Str := "running".toList

def cidIsOk (summary : Str) : Bool :=
  let parts := splitSummary summary
  if parts.health ≠ noHealth then parts.health = healthyState else parts.status = runningStatus

def healthGatePassed (found : RunningContainers) (summary : Str → Str) : Bool :=
  found.cids ≠ [] && found.missing = [] && found.failed = [] &&
    found.cids.all fun cid => summary cid ≠ [] && cidIsOk (summary cid)

/-- The summary an update reads: the first line. -/
def cidSummary (lines : List Str) : Str := lines.headD []

/-- The summary a retag reads: the first line with text. -/
def firstNonblank (lines : List Str) : Str := ((lines.map strip).find? (· ≠ [])).getD []

section
variable (read : List Str → Str) (services : List Str)

/-- The wait over the polls there are; `none` while it goes on. -/
def awaitHealth : List HealthPoll → Option Bool
  | [] => none
  | poll :: polls =>
    let found := runningServiceContainers poll.psQuietChecked services
    if healthGatePassed found fun cid => read (poll.tryInspect cid) then some true
    else if poll.timedOut then some false
    else awaitHealth polls

end

def waitForHealth (services : List Str) (polls : List HealthPoll) : Option Bool := awaitHealth cidSummary services polls

/-- A wait that fails raises an error. -/
def waitForRetagHealth (services : List Str) (polls : List HealthPoll) : Option Bool :=
  awaitHealth firstNonblank services polls

/-! What a poll shows -/

/-- The lookups for some services: one each, or one for the whole stack. -/
def lookups (services : List Str) : List (List Str) := if services = [] then [[]] else services.map ([·])

/-- Every lookup lists containers, and each of these has a property. -/
def HealthPoll.Lists (poll : HealthPoll) (services : List Str) (p : Str → Prop) : Prop :=
  ∀ lookup ∈ lookups services, ∃ cids, poll.psQuietChecked lookup = some cids ∧ cids ≠ [] ∧ ∀ cid ∈ cids, p cid

/-- A readable summary of a running container that is healthy or has no health check. -/
def RunsHealthy (summary : Str) : Prop :=
  summary ≠ [] ∧ (splitSummary summary).status = runningStatus ∧
    ((splitSummary summary).health = healthyState ∨ (splitSummary summary).health = noHealth)

/-- A readable summary that says healthy, or running without a health check. -/
def LooksHealthy (summary : Str) : Prop :=
  summary ≠ [] ∧ ((splitSummary summary).health = healthyState ∨
    (splitSummary summary).health = noHealth ∧ (splitSummary summary).status = runningStatus)

/-- What is said to be healthy runs. -/
def HealthyRuns (summary : Str) : Prop :=
  (splitSummary summary).health = healthyState → (splitSummary summary).status = runningStatus

theorem cidIsOk_iff {summary : Str} : cidIsOk summary = true ↔ (splitSummary summary).health = healthyState ∨
    (splitSummary summary).health = noHealth ∧ (splitSummary summary).status = runningStatus := by
  unfold cidIsOk
  dsimp only
  have hne : healthyState ≠ noHealth := by decide
  split
  · rename_i hh
    simp [hh]
  · rename_i hh
    rw [not_not] at hh
    simp [hh,hne.symm]

theorem looksHealthy_and_runs {summary : Str} : LooksHealthy summary ∧ HealthyRuns summary ↔ RunsHealthy summary := by
  constructor
  · rintro ⟨⟨hread,hlooks⟩,hruns⟩
    obtain hhealthy | ⟨hnone,hrunning⟩ := hlooks
    · exact ⟨hread,hruns hhealthy,.inl hhealthy⟩
    · exact ⟨hread,hrunning,.inr hnone⟩
  · rintro ⟨hread,hrunning,hhealth⟩
    exact ⟨⟨hread,hhealth.imp_right fun hnone => ⟨hnone,hrunning⟩⟩,fun _ => hrunning⟩

/-! The containers found -/

section
variable {ps : List Str → Option (List Str)} {services : List Str} {found : RunningContainers}

theorem foldl_unseen {cids more : List Str} {cid : Str} :
    cid ∈ more.foldl (fun cids cid => if cid ∈ cids then cids else cids ++ [cid]) cids ↔ cid ∈ cids ∨ cid ∈ more := by
  induction more generalizing cids with
  | nil => simp
  | cons other more ih =>
    rw [List.foldl_cons,ih]
    split
    · rename_i hseen
      constructor
      · exact fun h => h.imp_right (List.mem_cons_of_mem other)
      · rintro (h | h)
        · exact .inl h
        · obtain rfl | h := List.mem_cons.mp h
          · exact .inl hseen
          · exact .inr h
    · rw [List.mem_append,List.mem_singleton,List.mem_cons,or_assoc]

/-- What is known after the lookups of some services. -/
structure RunningContainers.Covers (ps : List Str → Option (List Str)) (services : List Str)
    (found : RunningContainers) : Prop where
  failed : found.failed = [] ↔ ∀ service ∈ services, ps [service] ≠ none
  missing : found.missing = [] ↔ ∀ service ∈ services, ps [service] ≠ some []
  cids : ∀ cid, cid ∈ found.cids ↔ ∃ service ∈ services, ∃ cids, ps [service] = some cids ∧ cid ∈ cids

theorem RunningContainers.Covers.addService (h : found.Covers ps services) (service : Str) :
    (found.addService ps service).Covers ps (services ++ [service]) := by
  unfold RunningContainers.addService
  split
  · rename_i hps
    refine ⟨?_,?_,?_⟩
    · simp [hps]
    · rw [h.missing,List.forall_mem_append,and_iff_left]
      simp [hps]
    · simp [h.cids,hps]
  · rename_i serviceCids hps
    refine ⟨?_,?_,?_⟩
    · rw [h.failed,List.forall_mem_append,and_iff_left]
      simp [hps]
    · rw [List.forall_mem_append,← h.missing]
      by_cases hnone : serviceCids = []
      · simp [hnone,hps]
      · simp [hnone,hps]
    · intro cid
      simp only [foldl_unseen,h.cids,List.mem_append,List.mem_singleton]
      constructor
      · rintro (⟨other,ho,hcids⟩ | hcid)
        · exact ⟨other,.inl ho,hcids⟩
        · exact ⟨service,.inr rfl,serviceCids,hps,hcid⟩
      · rintro ⟨other,ho | rfl,cids,hcids,hcid⟩
        · exact .inl ⟨other,ho,cids,hcids,hcid⟩
        · rw [hps] at hcids
          cases hcids
          exact .inr hcid

theorem RunningContainers.Covers.foldl {more : List Str} (h : found.Covers ps services) :
    (more.foldl (RunningContainers.addService ps) found).Covers ps (services ++ more) := by
  induction more generalizing services found with
  | nil => simpa using h
  | cons service more ih =>
    rw [List.foldl_cons,List.append_cons]
    exact ih (h.addService service)

end

section
variable {poll : HealthPoll} {services : List Str} {read : List Str → Str}

/-- Of the services named one by one: all are listed, with containers, whose summaries are good. -/
theorem covers_iff {found : RunningContainers} {p : Str → Prop} (h : found.Covers poll.psQuietChecked services)
    (hservices : services ≠ []) :
    (found.cids ≠ [] ∧ found.missing = [] ∧ found.failed = [] ∧ ∀ cid ∈ found.cids, p cid) ↔
      poll.Lists services p := by
  rw [h.missing,h.failed,HealthPoll.Lists,lookups,if_neg hservices,List.forall_mem_map]
  constructor
  · rintro ⟨-,hmissing,hfailed,hall⟩ service hservice
    cases hps : poll.psQuietChecked [service] with
    | none => exact absurd hps (hfailed service hservice)
    | some cids =>
      refine ⟨cids,rfl,?_,fun cid hcid => hall cid ((h.cids cid).mpr ⟨service,hservice,cids,hps,hcid⟩)⟩
      rintro rfl
      exact hmissing service hservice hps
  · intro hlists
    refine ⟨?_,?_,?_,?_⟩
    · obtain ⟨service,hservice⟩ := List.exists_mem_of_ne_nil services hservices
      obtain ⟨cids,hps,hne,-⟩ := hlists service hservice
      obtain ⟨cid,hcid⟩ := List.exists_mem_of_ne_nil cids hne
      exact List.ne_nil_of_mem ((h.cids cid).mpr ⟨service,hservice,cids,hps,hcid⟩)
    · intro service hservice hnone
      obtain ⟨cids,hps,hne,-⟩ := hlists service hservice
      rw [hnone] at hps
      cases hps
      exact hne rfl
    · intro service hservice hnone
      obtain ⟨cids,hps,-⟩ := hlists service hservice
      rw [hnone] at hps
      cases hps
    · intro cid hcid
      obtain ⟨service,hservice,cids,hps,hcid⟩ := (h.cids cid).mp hcid
      obtain ⟨cids',hps',-,hall⟩ := hlists service hservice
      rw [hps] at hps'
      cases hps'
      exact hall cid hcid

/-- The gate passes when every lookup lists containers, whose summaries look good. -/
theorem healthGatePassed_iff :
    healthGatePassed (runningServiceContainers poll.psQuietChecked services)
        (fun cid => read (poll.tryInspect cid)) = true ↔
      poll.Lists services fun cid => LooksHealthy (read (poll.tryInspect cid)) := by
  have hok (cid : Str) : (read (poll.tryInspect cid) ≠ [] && cidIsOk (read (poll.tryInspect cid))) = true ↔
      LooksHealthy (read (poll.tryInspect cid)) := by
    rw [Bool.and_eq_true,decide_eq_true_iff,cidIsOk_iff,LooksHealthy]
  simp only [healthGatePassed,Bool.and_eq_true,decide_eq_true_iff,List.all_eq_true,hok,and_assoc]
  unfold runningServiceContainers
  by_cases hservices : services = []
  · rw [if_pos hservices,HealthPoll.Lists,lookups,if_pos hservices]
    cases hps : poll.psQuietChecked [] with
    | none => simp [hps]
    | some cids => simp [hps]
  · rw [if_neg hservices]
    have hempty : ({} : RunningContainers).Covers poll.psQuietChecked [] := ⟨by simp,by simp,by simp⟩
    have hcovers : ((orderedUnique services).foldl (RunningContainers.addService poll.psQuietChecked) {}).Covers
        poll.psQuietChecked ([] ++ orderedUnique services) := hempty.foldl
    rw [List.nil_append] at hcovers
    have hsome : orderedUnique services ≠ [] := by
      obtain ⟨service,hservice⟩ := List.exists_mem_of_ne_nil services hservices
      exact List.ne_nil_of_mem (mem_orderedUnique.mpr hservice)
    rw [covers_iff hcovers hsome]
    simp [HealthPoll.Lists,lookups,hservices,hsome]

/-! The wait -/

theorem awaitHealth_cons {polls : List HealthPoll} : awaitHealth read services (poll :: polls) =
    if healthGatePassed (runningServiceContainers poll.psQuietChecked services)
      (fun cid => read (poll.tryInspect cid)) then some true
    else if poll.timedOut then some false
    else awaitHealth read services polls := rfl

/-- The wait succeeds at the first poll that looks good, if the time was not up before it. -/
theorem awaitHealth_eq_true_iff {polls : List HealthPoll} : awaitHealth read services polls = some true ↔
    ∃ before poll after, polls = before ++ poll :: after ∧ awaitHealth read services before = none ∧
      poll.Lists services fun cid => LooksHealthy (read (poll.tryInspect cid)) := by
  induction polls with
  | nil => simp [awaitHealth]
  | cons poll polls ih =>
    rw [awaitHealth_cons]
    split
    · rename_i hpass
      exact iff_of_true rfl ⟨[],poll,polls,rfl,rfl,healthGatePassed_iff.mp hpass⟩
    · rename_i hpass
      have hfirst : ∀ {before after : List HealthPoll} {p : HealthPoll}, poll :: polls = before ++ p :: after →
          awaitHealth read services before = none →
            p.Lists services (fun cid => LooksHealthy (read (p.tryInspect cid))) →
              ∃ before', before = poll :: before' ∧ polls = before' ++ p :: after ∧ poll.timedOut = false ∧
                awaitHealth read services before' = none := by
        intro before after p hsplit hwaiting hlists
        cases before with
        | nil =>
          obtain ⟨rfl,-⟩ := List.cons.inj hsplit
          exact absurd (healthGatePassed_iff.mpr hlists) hpass
        | cons q before' =>
          obtain ⟨rfl,hpolls⟩ := List.cons.inj hsplit
          rw [awaitHealth_cons,if_neg hpass] at hwaiting
          split at hwaiting
          · cases hwaiting
          · rename_i htime
            exact ⟨before',rfl,hpolls,by simpa using htime,hwaiting⟩
      split
      · rename_i htime
        constructor
        · intro h
          cases h
        · rintro ⟨before,p,after,hsplit,hwaiting,hlists⟩
          obtain ⟨-,-,-,hnot,-⟩ := hfirst hsplit hwaiting hlists
          rw [hnot] at htime
          cases htime
      · rename_i htime
        rw [ih]
        constructor
        · rintro ⟨before,p,after,rfl,hwaiting,hlists⟩
          refine ⟨poll :: before,p,after,rfl,?_,hlists⟩
          rw [awaitHealth_cons,if_neg hpass,if_neg htime,hwaiting]
        · rintro ⟨before,p,after,hsplit,hwaiting,hlists⟩
          obtain ⟨before',-,hpolls,-,hrest⟩ := hfirst hsplit hwaiting hlists
          exact ⟨before',p,after,hpolls,hrest,hlists⟩

/-- While the wait goes on no poll looks good. -/
theorem not_looksHealthy_of_waiting {polls : List HealthPoll} (h : awaitHealth read services polls = none) :
    ∀ seen ∈ polls, ¬ seen.Lists services fun cid => LooksHealthy (read (seen.tryInspect cid)) := by
  intro seen hseen hlooks
  induction polls with
  | nil => cases hseen
  | cons poll polls ih =>
    rw [awaitHealth_cons] at h
    split at h
    · cases h
    · rename_i hpass
      split at h
      · cases h
      · obtain rfl | hseen := List.mem_cons.mp hseen
        · exact hpass (healthGatePassed_iff.mpr hlooks)
        · exact ih h hseen

theorem HealthPoll.Lists.imp {p q : Str → Prop} (h : poll.Lists services p) (hpq : ∀ cid, p cid → q cid) :
    poll.Lists services q := by
  intro lookup hlookup
  obtain ⟨cids,hps,hne,hall⟩ := h lookup hlookup
  exact ⟨cids,hps,hne,fun cid hcid => hpq cid (hall cid hcid)⟩

theorem HealthPoll.Lists.and {p q : Str → Prop} (hp : poll.Lists services p) (hq : poll.Lists services q) :
    poll.Lists services fun cid => p cid ∧ q cid := by
  intro lookup hlookup
  obtain ⟨cids,hps,hne,hall⟩ := hp lookup hlookup
  obtain ⟨cids',hps',-,hall'⟩ := hq lookup hlookup
  rw [hps] at hps'
  cases hps'
  exact ⟨cids,hps,hne,fun cid hcid => ⟨hall cid hcid,hall' cid hcid⟩⟩

end

/-- At one poll every lookup lists containers, and each of these runs and is healthy as far as that is checked. -/
def HealthPoll.Sound (read : List Str → Str) (services : List Str) (poll : HealthPoll) : Prop :=
  poll.Lists services fun cid => RunsHealthy (read (poll.tryInspect cid))

/-- If the poll looks good, then what is said to be healthy runs. -/
def HealthPoll.Consistent (read : List Str → Str) (services : List Str) (poll : HealthPoll) : Prop :=
  (poll.Lists services fun cid => LooksHealthy (read (poll.tryInspect cid))) →
    poll.Lists services fun cid => HealthyRuns (read (poll.tryInspect cid))

theorem HealthPoll.consistent_iff {read : List Str → Str} {services : List Str} {poll : HealthPoll} :
    poll.Consistent read services ↔
      ((poll.Lists services fun cid => LooksHealthy (read (poll.tryInspect cid))) → poll.Sound read services) := by
  constructor
  · intro h hlooks
    exact (hlooks.and (h hlooks)).imp fun _ => looksHealthy_and_runs.mp
  · intro h hlooks
    exact (h hlooks).imp fun _ hruns => (looksHealthy_and_runs.mpr hruns).2

/-- In every wait whose polls are consistent, success means that one poll is sound; and a wait that goes on until its
last poll succeeds soundly exactly when that poll is consistent. -/
theorem health_wait_sound (read : List Str → Str) (services : List Str) (polls : List HealthPoll) :
    ((∀ poll ∈ polls, poll.Consistent read services) → awaitHealth read services polls = some true →
      ∃ poll ∈ polls, poll.Sound read services) ∧
    ∀ before poll, polls = before ++ [poll] → awaitHealth read services before = none →
      ((awaitHealth read services polls = some true → ∃ seen ∈ polls, seen.Sound read services) ↔
        poll.Consistent read services) := by
  constructor
  · intro hconsistent hsuccess
    obtain ⟨before,poll,after,rfl,-,hlooks⟩ := awaitHealth_eq_true_iff.mp hsuccess
    have hmem : poll ∈ before ++ poll :: after := by simp
    exact ⟨poll,hmem,HealthPoll.consistent_iff.mp (hconsistent poll hmem) hlooks⟩
  · rintro before poll rfl hwaiting
    rw [HealthPoll.consistent_iff]
    have hbefore := not_looksHealthy_of_waiting hwaiting
    constructor
    · intro hsound hlooks
      have hsuccess : awaitHealth read services (before ++ [poll]) = some true :=
        awaitHealth_eq_true_iff.mpr ⟨before,poll,[],rfl,hwaiting,hlooks⟩
      obtain ⟨seen,hseen,hs⟩ := hsound hsuccess
      obtain hseen | hseen := List.mem_append.mp hseen
      · exact absurd (hs.imp fun _ hruns => (looksHealthy_and_runs.mpr hruns).1) (hbefore seen hseen)
      · rwa [List.mem_singleton.mp hseen] at hs
    · intro hlast hsuccess
      obtain ⟨earlier,seen,later,hsplit,-,hlooks⟩ := awaitHealth_eq_true_iff.mp hsuccess
      have hseen : seen ∈ before ++ [poll] := hsplit ▸ List.mem_append_right _ List.mem_cons_self
      obtain hseen | hseen := List.mem_append.mp hseen
      · exact absurd hlooks (hbefore seen hseen)
      · obtain rfl := List.mem_singleton.mp hseen
        exact ⟨seen,List.mem_append_right _ List.mem_cons_self,hlast hlooks⟩

namespace Example

/-- One container of one service, with the given state and health, after a poll that failed. -/
def pollsOf (state : String) : List HealthPoll :=
  [⟨fun _ => none,fun _ => [],false⟩,
    ⟨fun _ => some ["c1".toList],fun _ => [("/web|" ++ state ++ "|healthy|0|0").toList],false⟩]

/-- A container that has stopped but is still called healthy passes the gate. -/
theorem stopped_container_passes :
    waitForHealth ["web".toList] (pollsOf "exited") = some true ∧
      waitForRetagHealth ["web".toList] (pollsOf "exited") = some true ∧
      ¬ (∃ poll ∈ pollsOf "exited", poll.Sound cidSummary ["web".toList]) ∧
      ¬ ∃ poll ∈ pollsOf "exited", poll.Sound firstNonblank ["web".toList] := by
  have hread : ∀ read ∈ [cidSummary,firstNonblank], ¬ ∃ poll ∈ pollsOf "exited", poll.Sound read ["web".toList] := by
    rintro read hread ⟨poll,hpoll,hsound⟩
    obtain ⟨cids,hps,hne,hall⟩ := hsound ["web".toList] (by decide)
    obtain rfl | rfl : poll = _ ∨ poll = _ := by simpa [pollsOf] using hpoll
    · cases hps
    · cases hps
      have hruns := (hall "c1".toList List.mem_cons_self).2.1
      obtain rfl | rfl : read = _ ∨ read = _ := by simpa using hread
      · exact absurd hruns (by decide +kernel)
      · exact absurd hruns (by decide +kernel)
  exact ⟨by decide +kernel,by decide +kernel,hread _ (by simp),hread _ (by simp)⟩

/-- A service that runs is found to do so. -/
theorem running_container_sound : ∃ poll ∈ pollsOf "running", poll.Sound cidSummary ["web".toList] := by
  have hsound := health_wait_sound cidSummary ["web".toList] (pollsOf "running")
  refine ((hsound.2 [⟨fun _ => none,fun _ => [],false⟩] _ rfl (by decide +kernel)).mpr ?_) (by decide +kernel)
  intro _ lookup hlookup
  obtain rfl : lookup = ["web".toList] := by simpa [lookups] using hlookup
  have hstatus : (splitSummary (cidSummary [("/web|" ++ "running" ++ "|healthy|0|0").toList])).status =
      runningStatus := by decide +kernel
  exact ⟨["c1".toList],rfl,by simp,fun _ _ _ => hstatus⟩

end Example

end HealthGate
end Wudup

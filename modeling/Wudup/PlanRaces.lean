import Wudup.Library.Traverse
import Wudup.PendingPlans

/-! When the store shows the plan of the last preview: which orders of answers let a plan come back that a later
preview or a dismissal replaced, or stay open over changed lines. -/
namespace Wudup
open Library

/-! What the loads leave of the plan -/

namespace UpdatesStore
variable {ρ π : Type} {s t : UpdatesStore ρ π}

/-- The plan stays or goes, and another pending list is another object. -/
structure Reloads (s t : UpdatesStore ρ π) : Prop where
  plan : t.plan = s.plan ∨ t.plan = none
  pending : t.pending = s.pending ∧ t.pendingVersion = s.pendingVersion ∨ s.pendingVersion < t.pendingVersion

theorem reloads_loadPending (s : UpdatesStore ρ π) (freshAfterCurrent : Bool) :
    s.Reloads (s.loadPending freshAfterCurrent).1 := by
  unfold loadPending
  split
  · exact ⟨.inr rfl,.inl ⟨rfl,rfl⟩⟩
  · split
    · exact ⟨.inl rfl,.inl ⟨rfl,rfl⟩⟩
    · split
      · exact ⟨.inl rfl,.inl ⟨rfl,rfl⟩⟩
      · exact ⟨.inl rfl,.inl ⟨rfl,rfl⟩⟩

theorem reloads_step {action : LoadAction ρ} (hs : step s action = some t) : s.Reloads t := by
  cases action with
  | call freshAfterCurrent =>
    cases hs
    exact reloads_loadPending s freshAfterCurrent
  | answer i response =>
    simp only [step,answer] at hs
    split at hs
    · cases response with
      | error thrown =>
        cases hs
        exact ⟨.inl rfl,.inl ⟨rfl,rfl⟩⟩
      | ok response =>
        cases hs
        exact ⟨.inl rfl,.inr (Nat.lt_succ_self _)⟩
    · cases hs
  | advance i =>
    simp only [step,advance] at hs
    split at hs
    · cases hs
      exact ⟨.inl rfl,.inl ⟨rfl,rfl⟩⟩
    · cases hs
      exact ⟨.inl rfl,.inl ⟨rfl,rfl⟩⟩
    · cases hs
      unfold releaseLoad
      split
      · exact ⟨.inl rfl,.inl ⟨rfl,rfl⟩⟩
      · exact ⟨.inl rfl,.inl ⟨rfl,rfl⟩⟩
    · cases hs
      exact ⟨.inl rfl,.inl ⟨rfl,rfl⟩⟩
    · cases hs
  | resume j =>
    simp only [step,resume] at hs
    split at hs
    · split at hs
      · cases hs
        exact ⟨.inr rfl,.inl ⟨rfl,rfl⟩⟩
      · cases hs
    · obtain ⟨result,-,rfl⟩ := Option.map_eq_some_iff.mp hs
      unfold releaseTrailing
      split
      · exact ⟨.inl rfl,.inl ⟨rfl,rfl⟩⟩
      · exact ⟨.inl rfl,.inl ⟨rfl,rfl⟩⟩
    · cases hs
      exact ⟨.inl rfl,.inl ⟨rfl,rfl⟩⟩
    · cases hs

end UpdatesStore

/-! What the server's answer leaves of the lines -/

section
variable {μ : Type} {response : WudApiContainer → μ} {source : PendingSourceResult}

/-- The source still has the line. -/
def PendingSourceResult.Shows (source : PendingSourceResult) (line : PendingMetadataRefreshLine) : Prop :=
  (lastOfLine (·.lineNo) source.parsed.targets line.lineNo).map (·.raw) = some line.raw ∧
    (source.sourceIdsByLine.lookup line.lineNo).getD [] = line.sourceId

/-- The source is the one that the request was made from, as far as the request says. -/
def PendingSourceResult.Current (source : PendingSourceResult) (payload : PendingMetadataRefreshRequest) : Prop :=
  source.sourceHash = payload.sourceHash ∧ ∀ line ∈ payload.lines, source.Shows line

/-- The item of a line that the source still has. -/
def shownItem (response : WudApiContainer → μ) (source : PendingSourceResult) (line : PendingMetadataRefreshLine) :
    PendingMetadataRefreshItem μ where
  lineNo := line.lineNo
  raw := line.raw
  sourceId := line.sourceId
  wudMetadata := (source.metadataByLine.lookup line.lineNo).map response
  metadataStatus := some ((source.metadataStatusByLine.lookup line.lineNo).getD .fresh)

theorem pendingMetadataItem_of_shows {line : PendingMetadataRefreshLine} (h : source.Shows line) :
    pendingMetadataItem response source line = some (shownItem response source line) := by
  obtain ⟨hraw,hid⟩ := h
  obtain ⟨target,htarget,hraw⟩ := Option.map_eq_some_iff.mp hraw
  simp [pendingMetadataItem,shownItem,htarget,hraw,hid]

theorem pendingMetadataItem_eq_none {line : PendingMetadataRefreshLine} (h : ¬ source.Shows line) :
    pendingMetadataItem response source line = none := by
  unfold pendingMetadataItem
  cases htarget : lastOfLine (·.lineNo) source.parsed.targets line.lineNo with
  | none => rfl
  | some target =>
    apply if_pos
    by_contra hsame
    rw [not_or,not_not,not_not] at hsame
    exact h ⟨by rw [htarget,Option.map_some,hsame.1],hsame.2⟩

theorem pendingMetadataResponse_of_current {payload : PendingMetadataRefreshRequest} (h : source.Current payload) :
    pendingMetadataResponse response source payload =
      ⟨.ready,false,source.sourceHash,payload.lines.map (shownItem response source)⟩ := by
  have hitems : payload.lines.mapM (pendingMetadataItem response source) =
      some (payload.lines.map (shownItem response source)) := by
    rw [mapM_eq_some,List.map_map]
    exact List.map_congr_left fun line hline => pendingMetadataItem_of_shows (h.2 line hline)
  simp [pendingMetadataResponse,h.1,hitems]

theorem pendingMetadataResponse_of_not_current {payload : PendingMetadataRefreshRequest}
    (h : ¬ source.Current payload) :
    pendingMetadataResponse response source payload = stalePendingMetadataResponse source := by
  unfold pendingMetadataResponse
  split
  · rfl
  · rename_i hhash
    obtain ⟨line,hline,hshows⟩ : ∃ line ∈ payload.lines, ¬ source.Shows line := by
      by_contra hall
      push Not at hall
      exact h ⟨not_not.mp hhash,hall⟩
    rw [mapM_eq_none.mpr ⟨line,hline,pendingMetadataItem_eq_none hshows⟩]

theorem lastOfLine_map {α β : Type} {f : α → β} (lineNo : α → ℕ) {lineNo' : β → ℕ}
    (h : ∀ x, lineNo' (f x) = lineNo x) (xs : List α) (n : ℕ) :
    lastOfLine lineNo' (xs.map f) n = (lastOfLine lineNo xs n).map f := by
  rw [lastOfLine,lastOfLine,← List.map_reverse,List.find?_map]
  simp only [Function.comp_def,h]

theorem patchItem_lineNo (items : List (PendingMetadataRefreshItem μ)) (item : PendingItem μ) :
    (patchItem items item).lineNo = item.lineNo := by
  unfold patchItem
  split <;> rfl

/-- Where the freshness of no selected line changes, the patch leaves the selected lines as they were. -/
theorem linesKept_of_patch {request : RefreshRequest μ} {items : List (PendingMetadataRefreshItem μ)}
    (hitems : items = request.payload.lines.map (shownItem response source))
    (hsame : selectedPlanMetadataChanged request.current.items items request.selectedScope = false) :
    LinesKept request.current.items (request.current.items.map (patchItem items)) request.selectedScope := by
  intro lineNo hlineNo
  rw [lastOfLine_map (·.lineNo) (patchItem_lineNo items)]
  cases hcurrent : lastOfLine (·.lineNo) request.current.items lineNo with
  | none => rfl
  | some item =>
    have hlast : item.lineNo = lineNo := by simpa using List.find?_some hcurrent
    have hrefreshed : lastOfLine (·.lineNo) items lineNo =
        some (shownItem response source ⟨item.lineNo,item.raw,item.sourceId⟩) := by
      have hline (item : PendingItem μ) :
        (⟨item.lineNo,item.raw,item.sourceId⟩ : PendingMetadataRefreshLine).lineNo = item.lineNo := rfl
      have hshown (line : PendingMetadataRefreshLine) : (shownItem response source line).lineNo = line.lineNo := rfl
      rw [hitems,lastOfLine_map (·.lineNo) hshown,RefreshRequest.payload,lastOfLine_map (·.lineNo) hline,hcurrent]
      rfl
    have hstatus := List.any_eq_false.mp hsame lineNo hlineNo
    rw [hcurrent,hrefreshed] at hstatus
    simp [shownItem,hlast,PendingItem.status] at hstatus
    simp [patchItem,hlast,hrefreshed,PendingItem.line,shownItem,PendingItem.status]
    exact hstatus

end

/-! What a step does to the plan -/

namespace PlanStore
variable {μ : Type} {response : WudApiContainer → μ} {s t : PlanStore μ}

/-- No plan is open, or the selected lines are as they were when the refresh was called. -/
def Untouched (s : PlanStore μ) (request : RefreshRequest μ) : Prop :=
  s.updates.plan = none ∨ LinesKept request.current.items s.items request.selectedScope

/-- The plan is of the last preview, and no dismissed one. -/
def Latest (s : PlanStore μ) (plan : PlanResponse) : Prop :=
  plan.createPlan + 1 = s.plans.length ∧ plan.createPlan ∉ s.dismissed

/-- The action comes in time: a preview's answer before the next preview, the end of a refresh that puts a plan back
before the next preview and before the plan's dismissal, and the end of one that leaves the plan alone while no plan is
open or the lines are as they were. -/
def Timely (s : PlanStore μ) : PlanAction μ → Prop
  | .answerPlan i (.ok _) => i + 1 = s.plans.length
  | .answerRefresh j (.error _) => ∀ request, s.refreshes[j]? = some (.awaiting request) → s.Untouched request
  | .answerRefresh j (.ok source) => ∀ request, s.refreshes[j]? = some (.awaiting request) →
    source.Current request.payload → s.updates.pendingVersion ≠ request.version → s.Untouched request
  | .resumeRefresh j => ∀ request openPlan sourceHashChanged load result,
    s.refreshes[j]? = some (.reloading request openPlan sourceHashChanged load) →
    s.updates.settlement load = some result →
      if result = .ok () ∧ sourceHashChanged = false ∧
        pendingLinesChanged request.current.items s.items request.selectedScope = false
      then ∀ plan ∈ openPlan, s.Latest plan
      else s.Untouched request
  | _ => True

/-- The plan that is shown is the answer to the last `createPlan` and was not dismissed, and no refresh ended with a
plan open and a selected line changed. -/
structure Good (s : PlanStore μ) : Prop where
  latest : ∀ plan, s.updates.plan = some plan → plan.createPlan + 1 = s.plans.length
  dismissed : ∀ plan, s.updates.plan = some plan → plan.createPlan ∉ s.dismissed
  refreshed : ∀ (j : ℕ) request items, s.refreshes[j]? = some (.ended request true items) →
    LinesKept request.current.items items request.selectedScope

/-- The `i`th call of `createPlan` has its answer. -/
def Answered (s : PlanStore μ) (i : ℕ) : Prop := ∃ stage, s.plans[i]? = some stage ∧ stage ≠ .requested

/-- What a refresh holds is of this store. -/
def Fits (s : PlanStore μ) : RefreshStage μ → Prop
  | .awaiting request => request.version ≤ s.updates.pendingVersion ∧
    (request.version = s.updates.pendingVersion → s.updates.pending = some request.current)
  | .reloading _ openPlan _ _ => ∀ plan ∈ openPlan, s.Answered plan.createPlan
  | .ended _ _ _ => True

/-- Plans are answers to earlier calls. -/
structure Tracked (s : PlanStore μ) : Prop where
  shown : ∀ plan, s.updates.plan = some plan → s.Answered plan.createPlan
  dismissed : ∀ i ∈ s.dismissed, s.Answered i
  fits : ∀ (j : ℕ) stage, s.refreshes[j]? = some stage → s.Fits stage

/-- Everything that a step can do to the plan, and when it is in time. -/
inductive Effect (s : PlanStore μ) (action : PlanAction μ) (t : PlanStore μ) : Prop
  | reloaded (htimely : s.Timely action) (hupdates : s.updates.Reloads t.updates)
    (hplans : t.plans.length = s.plans.length) (hanswered : ∀ i, s.Answered i → t.Answered i)
    (hdismissed : t.dismissed = s.dismissed)
    (hrefreshes : t.refreshes = s.refreshes ∨ ∃ j request sourceHashChanged load,
      t.refreshes = s.refreshes.set j (.reloading request s.updates.plan sourceHashChanged load))
  | requested (htimely : s.Timely action) (ht : t = s.createPlan)
  | planned {i : ℕ} {selected : List ℕ} (hi : s.plans[i]? = some .requested)
    (htimely : s.Timely action ↔ i + 1 = s.plans.length)
    (ht : t = { s.setPlan (some ⟨i,selected⟩) with plans := s.plans.set i (.answered (.ok ())) })
  | cleared (htimely : s.Timely action) (ht : t = s.clearPlan)
  | refreshing {current : PendingResponse μ} {selectedScope : List ℕ} (htimely : s.Timely action)
    (hcurrent : s.updates.pending = some current)
    (ht : t = { s with refreshes := s.refreshes ++ [.awaiting ⟨current,s.updates.pendingVersion,selectedScope⟩] })
  | left {j : ℕ} {request : RefreshRequest μ} {error : Str} (hj : j < s.refreshes.length)
    (htimely : s.Timely action ↔ s.Untouched request) (ht : t = (s.setError error).endRefresh j request)
  | patched {j : ℕ} {request : RefreshRequest μ} {u : PlanStore μ} (hj : j < s.refreshes.length)
    (htimely : s.Timely action) (ht : t = u.endRefresh j request) (hplan : u.updates.plan = none ∨
      u.updates.plan = s.updates.plan ∧ LinesKept request.current.items u.items request.selectedScope)
    (hversion : s.updates.pendingVersion < u.updates.pendingVersion)
    (hu : u.plans = s.plans ∧ u.refreshes = s.refreshes ∧ u.dismissed = s.dismissed)
  | restored {j : ℕ} {request : RefreshRequest μ} {plan : PlanResponse} {sourceHashChanged : Bool}
    {load : PendingPromise}
    (hj : s.refreshes[j]? = some (.reloading request (some plan) sourceHashChanged load))
    (hkept : pendingLinesChanged request.current.items s.items request.selectedScope = false)
    (htimely : s.Timely action ↔ s.Latest plan) (ht : t = (s.setPlan (some plan)).endRefresh j request)

theorem answered_set {plans : List PlanStage} {i k : ℕ} {stage : PlanStage} (hstage : stage ≠ .requested)
    (h : ∃ before, plans[k]? = some before ∧ before ≠ .requested) :
    ∃ after, (plans.set i stage)[k]? = some after ∧ after ≠ .requested := by
  obtain ⟨before,hk,hne⟩ := h
  by_cases hik : i = k
  · subst hik
    obtain ⟨hlt,-⟩ := List.getElem?_eq_some_iff.mp hk
    exact ⟨stage,List.getElem?_set_self hlt,hstage⟩
  · exact ⟨before,(List.getElem?_set_ne hik).trans hk,hne⟩

theorem effect_answerPlan {i : ℕ} {answer : Except Thrown (List ℕ)} (hs : s.answerPlan i answer = some t) :
    Effect s (.answerPlan i answer) t := by
  unfold answerPlan at hs
  split at hs
  · rename_i hi
    cases answer with
    | ok selected =>
      cases hs
      exact .planned hi Iff.rfl rfl
    | error thrown =>
      cases hs
      exact .reloaded trivial ⟨.inl rfl,.inl ⟨rfl,rfl⟩⟩ (List.length_set ..) (fun _ h => answered_set nofun h) rfl
        (.inl rfl)
  · cases hs

theorem effect_advancePlan {i : ℕ} (hs : s.advancePlan i = some t) : Effect s (.advancePlan i) t := by
  unfold advancePlan at hs
  split at hs
  · cases hs
    exact .reloaded trivial ⟨.inl rfl,.inl ⟨rfl,rfl⟩⟩ (List.length_set ..) (fun _ h => answered_set nofun h) rfl
      (.inl rfl)
  · cases hs
    exact .reloaded trivial ⟨.inl rfl,.inl ⟨rfl,rfl⟩⟩ (List.length_set ..) (fun _ h => answered_set nofun h) rfl
      (.inl rfl)
  · cases hs

theorem effect_refresh (selectedLineNumbers : Option (List ℕ)) :
    Effect s (.refresh selectedLineNumbers) (s.refreshPendingMetadata selectedLineNumbers) := by
  unfold refreshPendingMetadata
  split
  · exact .reloaded trivial ⟨.inl rfl,.inl ⟨rfl,rfl⟩⟩ rfl (fun _ h => h) rfl (.inl rfl)
  · rename_i current hcurrent
    exact .refreshing trivial hcurrent rfl

theorem timely_error {j : ℕ} {request : RefreshRequest μ} {thrown : Thrown}
    (hj : s.refreshes[j]? = some (.awaiting request)) :
    s.Timely (.answerRefresh j (.error thrown)) ↔ s.Untouched request := by
  constructor
  · exact fun h => h request hj
  · intro h other hother
    rw [hj] at hother
    cases hother
    exact h

theorem timely_ok {j : ℕ} {request : RefreshRequest μ} {source : PendingSourceResult}
    (hj : s.refreshes[j]? = some (.awaiting request)) : s.Timely (.answerRefresh j (.ok source)) ↔
      (source.Current request.payload → s.updates.pendingVersion ≠ request.version → s.Untouched request) := by
  constructor
  · exact fun h => h request hj
  · intro h other hother
    rw [hj] at hother
    cases hother
    exact h

theorem effect_answerRefresh (h : s.Tracked) {j : ℕ} {answer : Except Thrown PendingSourceResult}
    (hs : s.answerRefresh response j answer = some t) : Effect s (.answerRefresh j answer) t := by
  unfold answerRefresh at hs
  split at hs
  · rename_i request hj
    obtain ⟨hlt,-⟩ := List.getElem?_eq_some_iff.mp hj
    cases answer with
    | error thrown =>
      cases hs
      exact .left hlt (timely_error hj) rfl
    | ok source =>
      by_cases hcurrent : source.Current request.payload
      · simp only [pendingMetadataResponse_of_current hcurrent,Bool.false_eq_true,if_false] at hs
        split at hs
        · rename_i hversion
          cases hs
          exact .left hlt ((timely_ok hj).trans ⟨fun h => h hcurrent hversion,fun h _ _ => h⟩) rfl
        · rename_i hversion
          rw [ne_eq,not_not] at hversion
          have htimely : s.Timely (.answerRefresh j (.ok source)) :=
            (timely_ok hj).mpr fun _ hne => (hne hversion).elim
          have hpending : s.updates.pending = some request.current := (h.fits j _ hj).2 hversion.symm
          simp only [patchPendingMetadata,hpending] at hs
          split at hs
          · cases hs
            exact .patched hlt htimely rfl (.inl rfl) (Nat.lt_succ_self _) ⟨rfl,rfl,rfl⟩
          · rename_i hsame
            cases hs
            have hkept := linesKept_of_patch rfl (Bool.not_eq_true _ ▸ hsame)
            exact .patched hlt htimely rfl (.inr ⟨rfl,hkept⟩) (Nat.lt_succ_self _) ⟨rfl,rfl,rfl⟩
      · simp only [pendingMetadataResponse_of_not_current hcurrent,stalePendingMetadataResponse,if_true] at hs
        cases hs
        have htimely : s.Timely (.answerRefresh j (.ok source)) := (timely_ok hj).mpr fun hthis => (hcurrent hthis).elim
        exact .reloaded htimely (UpdatesStore.reloads_loadPending ..) rfl (fun _ h => h) rfl (.inr ⟨j,request,_,_,rfl⟩)
  · cases hs

theorem timely_resume {j : ℕ} {request : RefreshRequest μ} {openPlan : Option PlanResponse} {sourceHashChanged : Bool}
    {load : PendingPromise} {result : Settlement}
    (hj : s.refreshes[j]? = some (.reloading request openPlan sourceHashChanged load))
    (hload : s.updates.settlement load = some result) : s.Timely (.resumeRefresh j) ↔
      if result = .ok () ∧ sourceHashChanged = false ∧
        pendingLinesChanged request.current.items s.items request.selectedScope = false
      then ∀ plan ∈ openPlan, s.Latest plan else s.Untouched request := by
  constructor
  · exact fun h => h request openPlan sourceHashChanged load result hj hload
  · intro h request' openPlan' sourceHashChanged' load' result' hother hresult
    rw [hj] at hother
    cases hother
    rw [hload] at hresult
    cases hresult
    exact h

theorem linesKept_of_unchanged {before after : List (PendingItem μ)} {lineNumbers : List ℕ}
    (h : pendingLinesChanged before after lineNumbers = false) : LinesKept before after lineNumbers := by
  intro lineNo hlineNo
  have hline := List.any_eq_false.mp h lineNo hlineNo
  cases hbefore : lastOfLine (·.lineNo) before lineNo with
  | none => simp [hbefore] at hline
  | some previous =>
    cases hafter : lastOfLine (·.lineNo) after lineNo with
    | none => simp [hbefore,hafter] at hline
    | some current =>
      simp [hbefore,hafter] at hline
      simp [PendingItem.line,hline]

theorem effect_resumeRefresh {j : ℕ} (hs : s.resumeRefresh j = some t) : Effect s (.resumeRefresh j) t := by
  unfold resumeRefresh at hs
  split at hs
  · rename_i request openPlan sourceHashChanged load hj
    obtain ⟨hlt,-⟩ := List.getElem?_eq_some_iff.mp hj
    split at hs
    · cases hs
    · rename_i thrown hload
      cases hs
      refine .left hlt ((timely_resume hj hload).trans ?_) rfl
      rw [if_neg]
      rintro ⟨hok,-⟩
      cases hok
    · rename_i hload
      have htimely := timely_resume hj hload
      cases openPlan with
      | none =>
        cases hs
        refine .left hlt (htimely.trans ?_) rfl
        split
        · rename_i hsame
          exact ⟨fun _ => .inr (linesKept_of_unchanged hsame.2.2),fun _ => nofun⟩
        · exact Iff.rfl
      | some plan =>
        simp only at hs
        split at hs
        · rename_i hchanged
          cases hs
          refine .left hlt (htimely.trans ?_) rfl
          rw [if_neg]
          rintro ⟨-,hhash,hlines⟩
          simp [hhash,hlines] at hchanged
        · rename_i hsame
          cases hs
          rw [Bool.not_eq_true,Bool.or_eq_false_iff] at hsame
          refine .restored hj hsame.2 (htimely.trans ?_) rfl
          rw [if_pos ⟨rfl,hsame⟩]
          exact ⟨fun h => h plan rfl,fun h other hother => Option.some.inj hother ▸ h⟩
  · cases hs

theorem step_effect {action : PlanAction μ} (h : s.Tracked) (hs : step response s action = some t) :
    Effect s action t := by
  cases action with
  | load action =>
    obtain ⟨updates,hupdates,rfl⟩ := Option.map_eq_some_iff.mp hs
    exact .reloaded trivial (UpdatesStore.reloads_step hupdates) rfl (fun _ h => h) rfl (.inl rfl)
  | createPlan =>
    cases hs
    exact .requested trivial rfl
  | answerPlan i answer => exact effect_answerPlan hs
  | advancePlan i => exact effect_advancePlan hs
  | clearPlan =>
    cases hs
    exact .cleared trivial rfl
  | refresh selectedLineNumbers =>
    cases hs
    exact effect_refresh selectedLineNumbers
  | answerRefresh j answer => exact effect_answerRefresh h hs
  | resumeRefresh j => exact effect_resumeRefresh hs

/-! What holds of every run -/

theorem Tracked.kept (h : s.Tracked) (hanswered : ∀ i, s.Answered i → t.Answered i)
    (hplan : ∀ plan, t.updates.plan = some plan → s.updates.plan = some plan ∨ t.Answered plan.createPlan)
    (hdismissed : ∀ i ∈ t.dismissed, i ∈ s.dismissed ∨ t.Answered i)
    (hpending : t.updates.pending = s.updates.pending ∧ t.updates.pendingVersion = s.updates.pendingVersion ∨
      s.updates.pendingVersion < t.updates.pendingVersion)
    (hrefreshes : ∀ (j : ℕ) stage, t.refreshes[j]? = some stage → s.refreshes[j]? = some stage ∨ t.Fits stage) :
    t.Tracked := by
  refine ⟨?_,?_,?_⟩
  · intro plan ht
    obtain hs | hnew := hplan plan ht
    · exact hanswered _ (h.shown plan hs)
    · exact hnew
  · intro i ht
    obtain hs | hnew := hdismissed i ht
    · exact hanswered _ (h.dismissed i hs)
    · exact hnew
  · intro j stage ht
    obtain hs | hnew := hrefreshes j stage ht
    · have hfits := h.fits j stage hs
      cases stage with
      | awaiting request =>
        obtain ⟨hle,hcurrent⟩ := hfits
        obtain ⟨hsame,hversion⟩ | hlt := hpending
        · rw [Fits,hsame,hversion]
          exact ⟨hle,hcurrent⟩
        · exact ⟨by omega,by omega⟩
      | reloading request openPlan sourceHashChanged load =>
        exact fun plan hplan => hanswered _ (hfits plan hplan)
      | ended request planOpen items => trivial
    · exact hnew

theorem tracked_endRefresh (h : s.Tracked) (j : ℕ) (request : RefreshRequest μ) : (s.endRefresh j request).Tracked := by
  refine h.kept (fun _ hi => hi) (fun _ hp => .inl hp) (fun _ hi => .inl hi) (.inl ⟨rfl,rfl⟩) ?_
  intro k stage hk
  obtain ⟨-,rfl⟩ | ⟨-,hk⟩ := getElem?_set_cases hk
  · exact .inr trivial
  · exact .inl hk

theorem Effect.tracked {action : PlanAction μ} (h : s.Tracked) (he : Effect s action t) : t.Tracked := by
  cases he with
  | reloaded _ hupdates _ hanswered hdismissed hrefreshes =>
    refine h.kept hanswered ?_ (fun _ hi => .inl (hdismissed ▸ hi)) hupdates.pending ?_
    · intro plan hplan
      obtain hsame | hnone := hupdates.plan
      · exact .inl (hsame ▸ hplan)
      · rw [hnone] at hplan
        cases hplan
    · intro j stage hj
      obtain hsame | ⟨k,request,sourceHashChanged,load,hset⟩ := hrefreshes
      · exact .inl (hsame ▸ hj)
      · rw [hset] at hj
        obtain ⟨-,rfl⟩ | ⟨-,hj⟩ := getElem?_set_cases hj
        · exact .inr fun plan hplan => hanswered _ (h.shown plan hplan)
        · exact .inl hj
  | requested _ ht =>
    subst ht
    refine h.kept ?_ (fun _ hplan => nomatch hplan) (fun _ hi => .inl hi) (.inl ⟨rfl,rfl⟩) (fun _ _ hj => .inl hj)
    rintro i ⟨stage,hi,hne⟩
    obtain ⟨hlt,-⟩ := List.getElem?_eq_some_iff.mp hi
    exact ⟨stage,(List.getElem?_append_left hlt).trans hi,hne⟩
  | @planned i selected hi _ ht =>
    subst ht
    obtain ⟨hlt,-⟩ := List.getElem?_eq_some_iff.mp hi
    refine h.kept (fun _ h => answered_set nofun h) ?_ (fun _ hi => .inl hi) (.inl ⟨rfl,rfl⟩) (fun _ _ hj => .inl hj)
    intro plan hplan
    cases hplan
    exact .inr ⟨_,List.getElem?_set_self hlt,nofun⟩
  | cleared _ ht =>
    subst ht
    refine h.kept (fun _ h => h) (fun _ hplan => nomatch hplan) ?_ (.inl ⟨rfl,rfl⟩) (fun _ _ hj => .inl hj)
    intro i hi
    obtain hi | hi := List.mem_append.mp hi
    · exact .inl hi
    · obtain ⟨plan,hplan,rfl⟩ := Option.map_eq_some_iff.mp (Option.mem_toList.mp hi)
      exact .inr (h.shown plan hplan)
  | refreshing _ hcurrent ht =>
    subst ht
    refine h.kept (fun _ h => h) (fun _ hplan => .inl hplan) (fun _ hi => .inl hi) (.inl ⟨rfl,rfl⟩) ?_
    intro j stage hj
    obtain ⟨-,rfl⟩ | hj := getElem?_concat_cases hj
    · exact .inr ⟨Nat.le_refl _,fun _ => hcurrent⟩
    · exact .inl hj
  | @left j request error _ _ ht =>
    subst ht
    have hu : (s.setError error).Tracked :=
      h.kept (fun _ h => h) (fun _ hplan => .inl hplan) (fun _ hi => .inl hi) (.inl ⟨rfl,rfl⟩) (fun _ _ hj => .inl hj)
    exact tracked_endRefresh hu j request
  | @patched j request u _ _ ht hplan hversion hu =>
    subst ht
    obtain ⟨hplans,hrefreshes,hdismissed⟩ := hu
    have hanswered (i : ℕ) (hi : s.Answered i) : u.Answered i := by rwa [Answered,hplans]
    refine tracked_endRefresh (h.kept hanswered ?_ ?_ (.inr hversion) ?_) j request
    · intro plan hsome
      obtain hnone | ⟨hsame,-⟩ := hplan
      · rw [hnone] at hsome
        cases hsome
      · exact .inl (hsame ▸ hsome)
    · exact fun i hi => .inl (hdismissed ▸ hi)
    · exact fun k stage hk => .inl (hrefreshes ▸ hk)
  | @restored j request plan sourceHashChanged load hj _ _ ht =>
    subst ht
    have hplan : s.Answered plan.createPlan := h.fits j _ hj plan rfl
    have hu : (s.setPlan (some plan)).Tracked := by
      refine h.kept (fun _ h => h) ?_ (fun _ hi => .inl hi) (.inl ⟨rfl,rfl⟩) (fun _ _ hj => .inl hj)
      intro other hother
      cases hother
      exact .inr hplan
    exact tracked_endRefresh hu j request

theorem good_endRefresh {j : ℕ} {request : RefreshRequest μ} (hj : j < s.refreshes.length)
    (h : ∀ (k : ℕ) request items, s.refreshes[k]? = some (.ended request true items) →
      LinesKept request.current.items items request.selectedScope) :
    (s.endRefresh j request).Good ↔ (∀ plan, s.updates.plan = some plan → s.Latest plan) ∧ s.Untouched request := by
  have hself : (s.endRefresh j request).refreshes[j]? = some (.ended request s.updates.plan.isSome s.items) :=
    List.getElem?_set_self hj
  constructor
  · intro hgood
    refine ⟨fun plan hplan => ⟨hgood.latest plan hplan,hgood.dismissed plan hplan⟩,?_⟩
    cases hplan : s.updates.plan with
    | none => exact .inl hplan
    | some plan =>
      rw [hplan] at hself
      exact .inr (hgood.refreshed j request s.items hself)
  · rintro ⟨hlatest,huntouched⟩
    refine ⟨fun plan hplan => (hlatest plan hplan).1,fun plan hplan => (hlatest plan hplan).2,?_⟩
    intro k other items hk
    by_cases hkj : k = j
    · subst hkj
      rw [hself] at hk
      cases hplan : s.updates.plan with
      | none =>
        rw [hplan,Option.isSome_none] at hk
        cases hk
      | some plan =>
        rw [hplan,Option.isSome_some] at hk
        cases hk
        obtain hnone | hkept := huntouched
        · rw [hnone] at hplan
          cases hplan
        · exact hkept
    · exact h k other items ((List.getElem?_set_ne (Ne.symm hkj)).symm.trans hk)

theorem Effect.good_iff {action : PlanAction μ} (htracked : s.Tracked) (h : s.Good) (he : Effect s action t) :
    t.Good ↔ s.Timely action := by
  have hlatest (plan : PlanResponse) (hplan : s.updates.plan = some plan) : s.Latest plan :=
    ⟨h.latest plan hplan,h.dismissed plan hplan⟩
  cases he with
  | reloaded htimely hupdates hplans _ hdismissed hrefreshes =>
    refine iff_of_true ?_ htimely
    have hplan {plan : PlanResponse} (hplan : t.updates.plan = some plan) : s.updates.plan = some plan := by
      obtain hsame | hnone := hupdates.plan
      · exact hsame ▸ hplan
      · rw [hnone] at hplan
        cases hplan
    refine ⟨fun plan ht => hplans ▸ h.latest plan (hplan ht),fun plan ht => hdismissed ▸ h.dismissed plan (hplan ht),?_⟩
    intro j request items hj
    obtain hsame | ⟨k,other,sourceHashChanged,load,hset⟩ := hrefreshes
    · exact h.refreshed j request items (hsame ▸ hj)
    · rw [hset] at hj
      obtain ⟨-,heq⟩ | ⟨-,hj⟩ := getElem?_set_cases hj
      · cases heq
      · exact h.refreshed j request items hj
  | requested htimely ht =>
    subst ht
    exact iff_of_true ⟨nofun,nofun,h.refreshed⟩ htimely
  | @planned i selected hi htimely ht =>
    subst ht
    rw [htimely]
    constructor
    · intro hgood
      simpa using hgood.latest ⟨i,selected⟩ rfl
    · intro hlast
      refine ⟨?_,?_,h.refreshed⟩
      · intro plan hplan
        cases hplan
        simpa using hlast
      · intro plan hplan hmem
        cases hplan
        obtain ⟨stage,hstage,hne⟩ := htracked.dismissed i hmem
        rw [hi] at hstage
        cases hstage
        exact hne rfl
  | cleared htimely ht =>
    subst ht
    exact iff_of_true ⟨nofun,nofun,h.refreshed⟩ htimely
  | refreshing htimely _ ht =>
    subst ht
    refine iff_of_true ⟨h.latest,h.dismissed,?_⟩ htimely
    intro j request items hj
    obtain ⟨-,heq⟩ | hj := getElem?_concat_cases hj
    · cases heq
    · exact h.refreshed j request items hj
  | @left j request error hj htimely ht =>
    subst ht
    rw [htimely]
    refine (good_endRefresh (s := s.setError error) hj h.refreshed).trans ?_
    exact ⟨fun hboth => hboth.2,fun huntouched => ⟨hlatest,huntouched⟩⟩
  | @patched j request u hj htimely ht hplan hversion hu =>
    subst ht
    obtain ⟨hplans,hrefreshes,hdismissed⟩ := hu
    refine iff_of_true ((good_endRefresh (hrefreshes ▸ hj) (hrefreshes ▸ h.refreshed)).mpr ⟨?_,?_⟩) htimely
    · intro plan hsome
      rw [Latest,hplans,hdismissed]
      obtain hnone | ⟨hsame,-⟩ := hplan
      · rw [hnone] at hsome
        cases hsome
      · exact hlatest plan (hsame ▸ hsome)
    · exact hplan.imp id fun hboth => hboth.2
  | @restored j request plan sourceHashChanged load hj hkept htimely ht =>
    subst ht
    obtain ⟨hlt,-⟩ := List.getElem?_eq_some_iff.mp hj
    rw [htimely]
    refine (good_endRefresh (s := s.setPlan (some plan)) hlt h.refreshed).trans ?_
    constructor
    · exact fun hboth => hboth.1 plan rfl
    · intro hthis
      refine ⟨fun other hother => ?_,.inr (linesKept_of_unchanged hkept)⟩
      cases hother
      exact hthis

/-- Nothing was previewed or refreshed yet. -/
structure Unplanned (s : PlanStore μ) : Prop where
  plan : s.updates.plan = none
  plans : s.plans = []
  refreshes : s.refreshes = []
  dismissed : s.dismissed = []

theorem Unplanned.tracked (h : s.Unplanned) : s.Tracked := by
  refine ⟨?_,?_,?_⟩
  · simp [h.plan]
  · simp [h.dismissed]
  · simp [h.refreshes]

theorem Unplanned.good (h : s.Unplanned) : s.Good := by
  refine ⟨?_,?_,?_⟩
  · simp [h.plan]
  · simp [h.plan]
  · simp [h.refreshes]

/-- In every state of a run the plan that is shown is that of the last preview, was not dismissed, and was not left open
over changed lines, exactly if every action of the run came in time. -/
theorem plan_kept_iff {start : PlanStore μ} {actions : List (PlanAction μ)} (hstart : start.Unplanned)
    (hr : System.run (step response) start actions = some t) :
    System.Along (step response) Timely start actions ↔
      ∀ before after s, actions = before ++ after → System.run (step response) start before = some s → s.Good := by
  apply System.along_iff (I := Tracked) _ _ hstart.tracked hstart.good hr
  · exact fun s action t htracked hs => (step_effect htracked hs).tracked htracked
  · exact fun s action t htracked hgood hs => (step_effect htracked hs).good_iff htracked hgood

theorem plan_kept_iff_one_preview :
    System.Along (step fun _ => ()) Timely ({} : PlanStore Unit) [.createPlan,.answerPlan 0 (.ok [1])] ∧
      ∃ s, System.run (step fun _ => ()) ({} : PlanStore Unit) [.createPlan,.answerPlan 0 (.ok [1])] = some s ∧
        s.updates.plan = some ⟨0,[1]⟩ ∧ s.Good := by
  have hstart : ({} : PlanStore Unit).Unplanned := ⟨rfl,rfl,rfl,rfl⟩
  obtain ⟨s,hs⟩ : ∃ s, System.run (step fun _ => ()) ({} : PlanStore Unit) [.createPlan,.answerPlan 0 (.ok [1])] =
    some s := ⟨_,rfl⟩
  have htimely : System.Along (step fun _ => ()) Timely ({} : PlanStore Unit)
      [.createPlan,.answerPlan 0 (.ok [1])] := by
    refine ⟨trivial,?_⟩
    intro t ht
    cases ht
    exact ⟨rfl,fun _ _ => trivial⟩
  refine ⟨htimely,s,hs,?_,(plan_kept_iff hstart hs).mp htimely _ [] s (List.append_nil _).symm hs⟩
  cases hs
  rfl

def sourceTarget (lineNo : ℕ) (raw : Str) : PlatformTarget where
  lineNo := lineNo
  raw := raw
  first := raw
  key := raw
  repo := raw
  hasTag := false
  allowRepo := false
  digest := []
  desiredTag := []

/-- Two lines, the second of which is of another container than in the pending list. -/
def movedSource : PendingSourceResult where
  found := true
  parsed := ⟨[],[sourceTarget 1 ['a'],sourceTarget 2 ['b']],[]⟩
  text := ['a','\n','b']
  sourceHash := ['h']
  fresh := true
  degraded := false
  detail := []
  warnings := []
  metadataByLine := []
  containerIdsByLine := []
  sourceIdsByLine := [(1,['x']),(2,['z'])]
  metadataStatusByLine := []

def twoLines (raw : Str) : PendingResponse Unit :=
  ⟨some ['h'],[{ lineNo := 1, raw := raw, sourceId := ['x'] },{ lineNo := 2, raw := ['b'], sourceId := ['y'] }]⟩

/-- The first load of the pending list. -/
def firstLoad : List (PlanAction Unit) :=
  [.load (.call false),.load (.answer 0 (.ok (twoLines ['a']))),.load (.advance 0),.load (.advance 0),
    .load (.advance 0),.load (.advance 0)]

/-- The older of two previews is answered last. -/
def overtakenPreview : List (PlanAction Unit) :=
  [.createPlan,.createPlan,.answerPlan 1 (.ok [2]),.answerPlan 0 (.ok [1])]

/-- A plan is dismissed while the refresh that saved it waits for its load. -/
def undoneDismissal : List (PlanAction Unit) :=
  firstLoad ++ [.load (.call false),.createPlan,.answerPlan 0 (.ok [1]),.refresh none,
    .answerRefresh 0 (.ok movedSource),.clearPlan,.load (.answer 1 (.ok (twoLines ['a']))),.load (.advance 1),
    .load (.advance 1),.load (.advance 1),.load (.advance 1),.load (.resume 0),.load (.answer 2 (.ok (twoLines ['a']))),.load (.advance 2),.load (.advance 2),
    .load (.advance 2),.load (.advance 2),.load (.resume 0),.load (.resume 0),.resumeRefresh 0]

/-- A preview is answered while a refresh waits for a load that changes its line. -/
def planOverChange : List (PlanAction Unit) :=
  firstLoad ++ [.refresh (some [1]),.answerRefresh 0 (.ok movedSource),.createPlan,.answerPlan 0 (.ok [1]),
    .load (.answer 1 (.ok (twoLines ['c']))),.load (.advance 1),.load (.advance 1),.load (.advance 1),
    .load (.advance 1),.resumeRefresh 0]

/-- An older preview replaces a newer one, a dismissed plan is shown again, and a plan stays open though the line of the
refresh has changed. -/
theorem plan_kept_counterexample :
    (∃ s, System.run (step fun _ => ()) {} overtakenPreview = some s ∧ s.updates.plan = some ⟨0,[1]⟩ ∧
      s.plans.length = 2 ∧ ¬ s.Good) ∧
    (∃ s, System.run (step fun _ => ()) {} undoneDismissal = some s ∧ s.updates.plan = some ⟨0,[1]⟩ ∧
      s.dismissed = [0] ∧ ¬ s.Good) ∧
    ∃ s request items, System.run (step fun _ => ()) {} planOverChange = some s ∧
      s.refreshes[0]? = some (.ended request true items) ∧
      ¬ LinesKept request.current.items items request.selectedScope ∧ ¬ s.Good := by
  refine ⟨⟨_,rfl,rfl,rfl,?_⟩,⟨_,rfl,rfl,rfl,?_⟩,_,_,_,rfl,rfl,?_,?_⟩
  · intro h
    cases h.latest _ rfl
  · intro h
    exact h.dismissed _ rfl List.mem_cons_self
  · decide
  · intro h
    have hkept := h.refreshed 0 _ _ rfl
    revert hkept
    decide

end PlanStore
end Wudup

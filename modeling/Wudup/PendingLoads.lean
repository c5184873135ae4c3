import Wudup.Library.Slots
import Wudup.Library.Transition
import Wudup.Models

/-! Loads of the pending list in the WebUI's store: calls that share a load that is on its way, and the load that trails
it when a call must not be answered by it. Each continuation of a promise is a step of its own. -/
namespace Wudup
open Library

/-- What a promise is rejected with. -/
inductive Thrown where
  | error (message : Str)
  | other
  deriving DecidableEq, Repr

/-- How a promise without a value settles. -/
abbrev Settlement := Except Thrown Unit

def Thrown.errorMessage : Thrown → Str
  | .error message => message
  | .other => "Request failed".toList

/-- The promises that `loadPending` returns. -/
inductive PendingPromise where
  | load (i : ℕ)
  | trailing (j : ℕ)
  deriving DecidableEq, Repr

/-- How far a load is: the promises of `reloadPending`, of `runWithStoreState` and of `loadWithState` settle in turn,
the callback of its `finally` runs, and the load settles. -/
inductive LoadStage where
  | fetching
  | reloaded (result : Settlement)
  | ran (result : Settlement)
  | counted (result : Settlement)
  | released (result : Settlement)
  | settled (result : Settlement)
  deriving DecidableEq

/-- The callback of the load's `finally` has run. -/
def LoadStage.done : LoadStage → Bool
  | .released _ => true
  | .settled _ => true
  | _ => false

def LoadStage.settlement : LoadStage → Option Settlement
  | .settled result => some result
  | _ => none

/-- How far the chain on an active promise is: it starts a load, and after that the callback of its `finally` runs. -/
inductive TrailingStage where
  | waiting
  | started (load : ℕ)
  | released (load : ℕ) (result : Settlement)
  | settled (load : ℕ) (result : Settlement)
  deriving DecidableEq

def TrailingStage.settlement : TrailingStage → Option Settlement
  | .settled _ result => some result
  | _ => none

structure TrailingLoad where
  active : PendingPromise
  stage : TrailingStage := .waiting
  deriving DecidableEq

/-- The part of the store that loads read and write, the promises so far, and the loads in the order in which their
fetches were answered. Every assignment of `pending` makes a new object, which the version counts. -/
structure UpdatesStore (ρ π : Type) where
  plan : Option π := none
  pending : Option ρ := none
  pendingVersion : ℕ := 0
  activeLoads : ℕ := 0
  loading : Bool := false
  error : Str := []
  pendingLoadInFlight : Option PendingPromise := none
  pendingLoadTrailing : Option PendingPromise := none
  loads : List LoadStage := []
  trailings : List TrailingLoad := []
  answered : List ℕ := []

/-- A call of `loadPending`, the answer to a load's fetch, and the next continuation of a load or of a trailing load. -/
inductive LoadAction (ρ : Type) where
  | call (freshAfterCurrent : Bool)
  | answer (i : ℕ) (response : Except Thrown ρ)
  | advance (i : ℕ)
  | resume (j : ℕ)

def LoadAction.IsCall {ρ : Type} : LoadAction ρ → Prop
  | .call _ => True
  | _ => False

namespace UpdatesStore
variable {ρ π : Type} (s : UpdatesStore ρ π)

/-! What the store does -/

/-- Until the work of `loadWithState` starts. -/
def beginLoad : UpdatesStore ρ π := { s with activeLoads := s.activeLoads + 1, loading := true, error := [] }

/-- The `catch` and the `finally` of `runWithStoreState`. -/
def endRun (result : Settlement) : UpdatesStore ρ π where
  __ := s
  loading := false
  error := match result with
    | .ok _ => s.error
    | .error thrown => thrown.errorMessage

/-- The `finally` of `loadWithState`. -/
def endLoad : UpdatesStore ρ π :=
  { s with activeLoads := s.activeLoads - 1, loading := decide (0 < s.activeLoads - 1) }

def setPending (response : ρ) : UpdatesStore ρ π :=
  { s with pending := some response, pendingVersion := s.pendingVersion + 1 }

def startPendingLoad : UpdatesStore ρ π × PendingPromise :=
  let load := PendingPromise.load s.loads.length
  ({ s.beginLoad with plan := none, loads := s.loads ++ [.fetching], pendingLoadInFlight := some load },load)

def loadPending (freshAfterCurrent : Bool) : UpdatesStore ρ π × PendingPromise :=
  match s.pendingLoadInFlight with
  | none => s.startPendingLoad
  | some active =>
    if !freshAfterCurrent then (s,s.pendingLoadTrailing.getD active)
    else match s.pendingLoadTrailing with
      | some trailing => (s,trailing)
      | none =>
        let trailing := PendingPromise.trailing s.trailings.length
        ({ s with trailings := s.trailings ++ [{ active := active }], pendingLoadTrailing := some trailing },trailing)

/-- How a promise has settled, if it has. -/
def settlement : PendingPromise → Option Settlement
  | .load i => s.loads[i]?.bind LoadStage.settlement
  | .trailing j => s.trailings[j]?.bind fun trailing => trailing.stage.settlement

def setLoad (i : ℕ) (stage : LoadStage) : UpdatesStore ρ π := { s with loads := s.loads.set i stage }

def setTrailing (j : ℕ) (trailing : TrailingLoad) : UpdatesStore ρ π :=
  { s with trailings := s.trailings.set j trailing }

/-- The callback of the load's `finally`. -/
def releaseLoad (i : ℕ) : UpdatesStore ρ π :=
  if s.pendingLoadInFlight = some (.load i) then { s with pendingLoadInFlight := s.pendingLoadTrailing } else s

/-- The callback of the trailing load's `finally`. -/
def releaseTrailing (j : ℕ) : UpdatesStore ρ π :=
  if s.pendingLoadTrailing = some (.trailing j) then { s with pendingLoadTrailing := none } else s

/-- The answer to the fetch: `reloadPending` stores the response and settles. -/
def answer (i : ℕ) (response : Except Thrown ρ) : Option (UpdatesStore ρ π) :=
  if s.loads[i]? = some .fetching then
    let reloaded := { s.setLoad i (.reloaded (response.map fun _ => ())) with answered := s.answered ++ [i] }
    match response with
    | .ok response => some (reloaded.setPending response)
    | .error _ => some reloaded
  else none

def advance (i : ℕ) : Option (UpdatesStore ρ π) :=
  match s.loads[i]? with
  | some (.reloaded result) => some ((s.endRun result).setLoad i (.ran result))
  | some (.ran result) => some (s.endLoad.setLoad i (.counted result))
  | some (.counted result) => some ((s.releaseLoad i).setLoad i (.released result))
  | some (.released result) => some (s.setLoad i (.settled result))
  | _ => none

def resume (j : ℕ) : Option (UpdatesStore ρ π) :=
  match s.trailings[j]? with
  | some ⟨active,.waiting⟩ =>
    if (s.settlement active).isSome then
      some (({ s with pendingLoadTrailing := none }.startPendingLoad.1).setTrailing j ⟨active,.started s.loads.length⟩)
    else none
  | some ⟨active,.started load⟩ =>
    (s.settlement (.load load)).map fun result =>
      (s.releaseTrailing j).setTrailing j ⟨active,.released load result⟩
  | some ⟨active,.released load result⟩ => some (s.setTrailing j ⟨active,.settled load result⟩)
  | _ => none

def step : System (UpdatesStore ρ π) (LoadAction ρ)
  | s, .call freshAfterCurrent => some (s.loadPending freshAfterCurrent).1
  | s, .answer i response => s.answer i response
  | s, .advance i => s.advance i
  | s, .resume j => s.resume j

/-! What a step does to the promises -/

end UpdatesStore

inductive LoadStage.Next : LoadStage → LoadStage → Prop
  | fetching (result : Settlement) : Next .fetching (.reloaded result)
  | reloaded (result : Settlement) : Next (.reloaded result) (.ran result)
  | ran (result : Settlement) : Next (.ran result) (.counted result)
  | counted (result : Settlement) : Next (.counted result) (.released result)
  | released (result : Settlement) : Next (.released result) (.settled result)

inductive TrailingStage.Next (loads : List LoadStage) : TrailingStage → TrailingStage → Prop
  | started {load : ℕ} {result : Settlement} (h : loads[load]? = some (.settled result)) :
    Next loads (.started load) (.released load result)
  | released (load : ℕ) (result : Settlement) : Next loads (.released load result) (.settled load result)

/-- The load that the chain has started. -/
def TrailingStage.load? : TrailingStage → Option ℕ
  | .waiting => none
  | .started load => some load
  | .released load _ => some load
  | .settled load _ => some load

def LoadStage.left : LoadStage → ℕ
  | .fetching => 5
  | .reloaded _ => 4
  | .ran _ => 3
  | .counted _ => 2
  | .released _ => 1
  | .settled _ => 0

/-- How many steps are left of it, with those of the load that it starts. -/
def TrailingStage.left : TrailingStage → ℕ
  | .waiting => 8
  | .started _ => 2
  | .released _ _ => 1
  | .settled _ _ => 0

theorem LoadStage.Next.ne_settled {before after : LoadStage} (h : before.Next after) (result : Settlement) :
    before ≠ .settled result := by
  cases h <;> exact nofun

theorem LoadStage.Next.ne_fetching {before after : LoadStage} (h : before.Next after) : after ≠ .fetching := by
  cases h <;> exact nofun

/-- The load that it has started is there, and has settled as it will. -/
def TrailingStage.Adopts (loads : List LoadStage) : TrailingStage → Prop
  | .waiting => True
  | .started load => load < loads.length
  | .released load result => loads[load]? = some (.settled result)
  | .settled load result => loads[load]? = some (.settled result)

namespace UpdatesStore
variable {ρ π : Type} {s t : UpdatesStore ρ π} {action : LoadAction ρ}

/-- What holds between any two steps: only the last load can be on its way, it is in flight until its callback has run,
and a trailing load that waits for it is the queued one. -/
structure Sound (s : UpdatesStore ρ π) : Prop where
  busy : ∀ (i : ℕ) stage, s.loads[i]? = some stage → stage.done = false →
    i + 1 = s.loads.length ∧ s.pendingLoadInFlight = some (.load i)
  free : (∀ stage ∈ s.loads, stage.done = true) → s.pendingLoadInFlight = s.pendingLoadTrailing
  queued : ∀ trailing, s.pendingLoadTrailing = some trailing →
    ∃ (j : ℕ) (active : PendingPromise), trailing = .trailing j ∧ s.trailings[j]? = some ⟨active,.waiting⟩
  waiting : ∀ (j : ℕ) active, s.trailings[j]? = some ⟨active,.waiting⟩ →
    s.pendingLoadTrailing = some (.trailing j) ∧ ∃ i, active = .load i ∧ i + 1 = s.loads.length
  adopted : ∀ (j : ℕ) trailing, s.trailings[j]? = some trailing → trailing.stage.Adopts s.loads
  order : s.answered.Pairwise (· < ·)
  answered : ∀ i : ℕ, i ∈ s.answered ↔ ∃ stage, s.loads[i]? = some stage ∧ stage ≠ .fetching

/-- Everything that one step can do to the promises. -/
inductive Moved (action : LoadAction ρ) (s t : UpdatesStore ρ π) : Prop
  | kept (hcall : action.IsCall) (hloads : t.loads = s.loads) (htrailings : t.trailings = s.trailings)
    (hinFlight : t.pendingLoadInFlight = s.pendingLoadInFlight)
    (htrailing : t.pendingLoadTrailing = s.pendingLoadTrailing) (hanswered : t.answered = s.answered)
  | load {i : ℕ} {before after : LoadStage} (hi : s.loads[i]? = some before) (hnext : before.Next after)
    (hloads : t.loads = s.loads.set i after) (htrailings : t.trailings = s.trailings)
    (hinFlight : t.pendingLoadInFlight =
      if after.done = before.done then s.pendingLoadInFlight else s.pendingLoadTrailing)
    (htrailing : t.pendingLoadTrailing = s.pendingLoadTrailing)
    (hanswered : t.answered = if before = .fetching then s.answered ++ [i] else s.answered)
  | start (hfree : ∀ stage ∈ s.loads, stage.done = true)
    (hloads : t.loads = s.loads ++ [.fetching])
    (hsource : (action.IsCall ∧ s.pendingLoadTrailing = none ∧ t.trailings = s.trailings) ∨
      ∃ (j : ℕ) (active : PendingPromise), s.trailings[j]? = some ⟨active,.waiting⟩ ∧
        t.trailings = s.trailings.set j ⟨active,.started s.loads.length⟩)
    (hinFlight : t.pendingLoadInFlight = some (.load s.loads.length)) (htrailing : t.pendingLoadTrailing = none)
    (hanswered : t.answered = s.answered)
  | queue {i : ℕ} (hcall : action.IsCall) (hi : i + 1 = s.loads.length) (hnone : s.pendingLoadTrailing = none)
    (hloads : t.loads = s.loads) (htrailings : t.trailings = s.trailings ++ [⟨.load i,.waiting⟩])
    (hbusy : ∃ stage : LoadStage, s.loads[i]? = some stage ∧ stage.done = false)
    (hinFlight : t.pendingLoadInFlight = s.pendingLoadInFlight)
    (htrailing : t.pendingLoadTrailing = some (.trailing s.trailings.length)) (hanswered : t.answered = s.answered)
  | adopt {j : ℕ} {active : PendingPromise} {before after : TrailingStage}
    (hj : s.trailings[j]? = some ⟨active,before⟩) (hnext : before.Next s.loads after)
    (hloads : t.loads = s.loads) (htrailings : t.trailings = s.trailings.set j ⟨active,after⟩)
    (hinFlight : t.pendingLoadInFlight = s.pendingLoadInFlight)
    (htrailing : t.pendingLoadTrailing = s.pendingLoadTrailing) (hanswered : t.answered = s.answered)

theorem Sound.inFlight_cases (h : s.Sound) :
    (∃ (i : ℕ) (stage : LoadStage), s.loads[i]? = some stage ∧ stage.done = false ∧ i + 1 = s.loads.length ∧
      s.pendingLoadInFlight = some (.load i)) ∨
    (∀ stage ∈ s.loads, stage.done = true) ∧ s.pendingLoadInFlight = s.pendingLoadTrailing := by
  by_cases hfree : ∀ stage ∈ s.loads, stage.done = true
  · exact .inr ⟨hfree,h.free hfree⟩
  · push Not at hfree
    obtain ⟨stage,hmem,hdone⟩ := hfree
    obtain ⟨i,hi⟩ := List.mem_iff_getElem?.mp hmem
    rw [ne_eq,Bool.not_eq_true] at hdone
    exact .inl ⟨i,stage,hi,hdone,h.busy i stage hi hdone⟩

theorem settlement_load {i : ℕ} {result : Settlement} :
    s.settlement (.load i) = some result ↔ s.loads[i]? = some (.settled result) := by
  rw [settlement,Option.bind_eq_some_iff]
  constructor
  · rintro ⟨stage,hi,hsettled⟩
    cases stage with
    | settled other =>
      cases hsettled
      exact hi
    | _ => cases hsettled
  · exact fun hi => ⟨_,hi,rfl⟩

theorem settlement_trailing {j : ℕ} {result : Settlement} :
    s.settlement (.trailing j) = some result ↔ ∃ active load, s.trailings[j]? = some ⟨active,.settled load result⟩ := by
  rw [settlement,Option.bind_eq_some_iff]
  constructor
  · rintro ⟨⟨active,stage⟩,hj,hsettled⟩
    cases stage with
    | settled load other =>
      cases hsettled
      exact ⟨active,load,hj⟩
    | _ => cases hsettled
  · rintro ⟨active,load,hj⟩
    exact ⟨_,hj,rfl⟩

theorem moved_call (h : s.Sound) (freshAfterCurrent : Bool) :
    Moved (.call freshAfterCurrent) s (s.loadPending freshAfterCurrent).1 := by
  unfold loadPending
  obtain ⟨i,stage,hi,hdone,hlast,hflight⟩ | ⟨hfree,hflight⟩ := h.inFlight_cases
  · rw [hflight]
    cases freshAfterCurrent with
    | false => exact .kept trivial rfl rfl rfl rfl rfl
    | true =>
      cases htrailing : s.pendingLoadTrailing with
      | none => exact .queue trivial hlast htrailing rfl rfl ⟨stage,hi,hdone⟩ hflight.symm rfl rfl
      | some trailing => exact .kept trivial rfl rfl rfl rfl rfl
  · rw [hflight]
    cases htrailing : s.pendingLoadTrailing with
    | none => exact .start hfree rfl (.inl ⟨trivial,htrailing,rfl⟩) rfl htrailing rfl
    | some trailing =>
      cases freshAfterCurrent with
      | false => exact .kept trivial rfl rfl rfl rfl rfl
      | true => exact .kept trivial rfl rfl rfl rfl rfl

theorem moved_answer {i : ℕ} {response : Except Thrown ρ} (hs : s.answer i response = some t) :
    Moved (.answer i response) s t := by
  unfold answer at hs
  split at hs
  · rename_i hi
    cases response with
    | error thrown =>
      cases hs
      exact .load hi (.fetching _) rfl rfl rfl rfl rfl
    | ok response =>
      cases hs
      exact .load hi (.fetching _) rfl rfl rfl rfl rfl
  · cases hs

theorem moved_advance (h : s.Sound) {i : ℕ} (hs : s.advance i = some t) : Moved (.advance i) s t := by
  unfold advance at hs
  split at hs
  · rename_i result hi
    cases hs
    exact .load hi (.reloaded result) rfl rfl rfl rfl rfl
  · rename_i result hi
    cases hs
    exact .load hi (.ran result) rfl rfl rfl rfl rfl
  · rename_i result hi
    cases hs
    obtain ⟨-,hflight⟩ := h.busy i _ hi rfl
    have hrelease : s.releaseLoad i = { s with pendingLoadInFlight := s.pendingLoadTrailing } := if_pos hflight
    rw [hrelease]
    exact .load hi (.counted result) rfl rfl rfl rfl rfl
  · rename_i result hi
    cases hs
    exact .load hi (.released result) rfl rfl rfl rfl rfl
  · cases hs

/-- The trailing load that starts one is the queued one, and the load that it waited for has run its callback. -/
theorem moved_resume (h : s.Sound) {j : ℕ} (hs : s.resume j = some t) : Moved (.resume j) s t := by
  unfold resume at hs
  split at hs
  · rename_i active hj
    split at hs
    · rename_i hsettled
      cases hs
      obtain ⟨-,i,rfl,hlast⟩ := h.waiting j active hj
      obtain ⟨result,hresult⟩ := Option.isSome_iff_exists.mp hsettled
      have hi := settlement_load.mp hresult
      have hfree : ∀ stage ∈ s.loads, stage.done = true := by
        intro stage hmem
        obtain ⟨k,hk⟩ := List.mem_iff_getElem?.mp hmem
        by_contra hdone
        obtain ⟨hklast,-⟩ := h.busy k stage hk (by simpa using hdone)
        obtain rfl : k = i := by omega
        rw [hi] at hk
        cases hk
        exact hdone rfl
      exact .start hfree rfl (.inr ⟨j,_,hj,rfl⟩) rfl rfl rfl
    · cases hs
  · rename_i active load hj
    obtain ⟨result,hresult,rfl⟩ := Option.map_eq_some_iff.mp hs
    have hkept : s.releaseTrailing j = s := by
      apply if_neg
      intro htrailing
      obtain ⟨k,other,hk,hwaiting⟩ := h.queued _ htrailing
      cases hk
      rw [hj] at hwaiting
      cases hwaiting
    rw [hkept]
    exact .adopt hj (.started (settlement_load.mp hresult)) rfl rfl rfl rfl rfl
  · rename_i active load result hj
    cases hs
    exact .adopt hj (.released load result) rfl rfl rfl rfl rfl
  · cases hs

theorem step_moved (h : s.Sound) (hs : step s action = some t) : Moved action s t := by
  cases action with
  | call freshAfterCurrent =>
    cases hs
    exact moved_call h freshAfterCurrent
  | answer i response => exact moved_answer hs
  | advance i => exact moved_advance h hs
  | resume j => exact moved_resume h hs

end UpdatesStore
end Wudup

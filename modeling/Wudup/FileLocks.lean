import Wudup.Library.Transition
import Wudup.WudFile

/-! Rewrites of the WUD file by several processes that take a lock directory around them. Every operation on the file
system is a step of its own, and the steps of the processes interleave. -/
namespace Wudup
open Library

/-- A rewrite of the lines of the file. -/
abbrev Transform := List Str → List Str

/-- What is asked of a lock, or of the file under it. A rewrite that is given no lock makes one of its own: it is the
call of a process that holds nothing. -/
inductive LockCall where
  | acquire
  | rewrite (transform : Transform)
  | release

/-- The operation that a process does next. -/
inductive LockStage where
  | idle
  /-- The lock directory is made, after some seconds of waiting for it. -/
  | making (waited : ℕ) (call : LockCall)
  | reading (transform : Transform) (releaseAfter : Bool)
  | replacing (transform : Transform) (currentLines : List Str) (releaseAfter : Bool)
  /-- The lock directory is removed, and the call ends. -/
  | removing (call : LockCall) (ok : Bool)

/-- A process with its lock; the timeout may be no number of seconds. -/
structure LockProcess where
  timeout : Option ℕ
  held : Bool := false
  stage : LockStage := .idle
  alive : Bool := true
  results : List (LockCall × Bool) := []

structure LockedFile where
  content : Str
  lockDir : Bool := false
  process : ℕ → LockProcess
  replaced : List (ℕ × Transform) := []

inductive LockAction where
  | call (i : ℕ) (call : LockCall)
  /-- The next operation of a process, which the system may refuse. -/
  | advance (i : ℕ) (fails : Bool)
  | kill (i : ℕ)

def LockAction.process : LockAction → ℕ
  | .call i _ => i
  | .advance i _ => i
  | .kill i => i

namespace LockProcess
variable (p : LockProcess)

def finish (call : LockCall) (ok : Bool) : LockProcess :=
  { p with stage := .idle, results := p.results ++ [(call,ok)] }

/-- A lock with a timeout that is not right cannot be acquired, held or not. -/
def begin : LockCall → LockProcess
  | .acquire =>
    if p.timeout.isNone then p.finish .acquire false
    else if p.held then p.finish .acquire true
    else { p with stage := .making 0 .acquire }
  | .rewrite transform =>
    if p.timeout.isNone then p.finish (.rewrite transform) false
    else if p.held then { p with stage := .reading transform false }
    else { p with stage := .making 0 (.rewrite transform) }
  | .release => if p.held then { p with stage := .removing .release true } else p.finish .release true

/-- The lock directory was made. -/
def acquired : LockCall → LockProcess
  | .rewrite transform => { p with held := true, stage := .reading transform true }
  | call => { p with held := true }.finish call true

/-- The end of a rewrite, with the lock released if it was taken for it. -/
def leave (transform : Transform) (ok releaseAfter : Bool) : LockProcess :=
  if releaseAfter then { p with stage := .removing (.rewrite transform) ok } else p.finish (.rewrite transform) ok

end LockProcess

namespace LockedFile
variable (s : LockedFile)

def put (i : ℕ) (p : LockProcess) : LockedFile := { s with process := Function.update s.process i p }

/-- An attempt to make the lock directory; a second is waited after one that fails, up to the timeout. -/
def attempt (i waited : ℕ) (call : LockCall) (fails : Bool) : LockedFile :=
  let p := s.process i
  if !fails && !s.lockDir then { s with lockDir := true }.put i (p.acquired call)
  else if p.timeout.all (· ≤ waited) then s.put i (p.finish call false)
  else s.put i { p with stage := .making (waited + 1) call }

def advance (i : ℕ) (fails : Bool) : Option LockedFile :=
  let p := s.process i
  match p.stage with
  | .idle => none
  | .making waited call => some (s.attempt i waited call fails)
  | .reading transform releaseAfter =>
    some (if fails then s.put i (p.leave transform false releaseAfter)
      else s.put i { p with stage := .replacing transform (splitLines s.content) releaseAfter })
  | .replacing transform currentLines releaseAfter =>
    some (if fails then s.put i (p.leave transform false releaseAfter)
      else { s with
        content := joinLines (transform currentLines)
        replaced := s.replaced ++ [(i,transform)] }.put i (p.leave transform true releaseAfter))
  | .removing call ok =>
    -- An error is ignored: the directory stays, and nobody holds it.
    some ({ s with lockDir := s.lockDir && fails }.put i ({ p with held := false }.finish call ok))

def step : System LockedFile LockAction
  | s, .call i call =>
    if (s.process i).alive then
      match (s.process i).stage with
      | .idle => some (s.put i ((s.process i).begin call))
      | _ => none
    else none
  | s, .advance i fails => if (s.process i).alive then s.advance i fails else none
  | s, .kill i => some (s.put i { s.process i with alive := false })

end LockedFile

/-! One step -/

/-- The rewrite whose result is known but not yet returned. -/
def LockStage.unreturned : LockStage → List Transform
  | .removing (.rewrite transform) true => [transform]
  | _ => []

def LockCall.made : LockCall × Bool → List Transform
  | (.rewrite transform,true) => [transform]
  | _ => []

/-- The rewrites that a process made, those that returned and the last one if it has not. -/
def LockProcess.made (p : LockProcess) : List Transform := p.results.flatMap LockCall.made ++ p.stage.unreturned

/-- A process reads and replaces the file, and removes the directory, with the lock held; what it read is still the
content. -/
def LockProcess.Sound (content : Str) (p : LockProcess) : Prop :=
  match p.stage with
  | .idle => True
  | .making waited _ => p.held = false ∧ ∃ timeout, p.timeout = some timeout ∧ waited ≤ timeout
  | .reading _ _ => p.held = true
  | .replacing _ currentLines _ => p.held = true ∧ currentLines = splitLines content
  | .removing _ _ => p.held = true

/-- What a step does: nothing to the file, or it takes the lock, replaces the content, or gives the lock back. -/
inductive LockedFile.Moved (s t : LockedFile) (i : ℕ) : Prop where
  | quiet (p : LockProcess) (ht : t = s.put i p) (hheld : p.held = (s.process i).held)
    (hmade : p.made = (s.process i).made) (hsound : p.Sound s.content)
  | lock (p : LockProcess) (hfree : s.lockDir = false) (ht : t = { s with lockDir := true }.put i p)
    (hheld : p.held = true) (hmade : p.made = (s.process i).made) (hsound : p.Sound s.content)
  | replace (p : LockProcess) (transform : Transform) (hheld : (s.process i).held = true)
    (ht : t = { s with
      content := rewriteWudFile transform s.content
      replaced := s.replaced ++ [(i,transform)] }.put i p)
    (hkept : p.held = true) (hmade : p.made = (s.process i).made ++ [transform])
    (hsound : ∀ content, p.Sound content)
  | unlock (p : LockProcess) (lockDir : Bool) (hheld : (s.process i).held = true)
    (ht : t = { s with lockDir }.put i p) (hfreed : p.held = false) (hmade : p.made = (s.process i).made)
    (hsound : ∀ content, p.Sound content)

section
variable {p : LockProcess} {content : Str} {call : LockCall} {transform : Transform} {ok releaseAfter : Bool}

@[simp] theorem LockProcess.finish_held : (p.finish call ok).held = p.held := rfl

theorem LockProcess.sound_finish : (p.finish call ok).Sound content := trivial

/-- A call that ends has returned what it made. -/
theorem LockProcess.made_finish (h : p.stage.unreturned = LockCall.made (call,ok)) :
    (p.finish call ok).made = p.made := by
  have hidle : (p.finish call ok).stage.unreturned = [] := rfl
  have hresults : (p.finish call ok).results = p.results ++ [(call,ok)] := rfl
  rw [LockProcess.made,LockProcess.made,hidle,hresults,h,List.flatMap_append,List.flatMap_singleton,List.append_nil]

/-- A stage at which nothing is made yet. -/
theorem LockProcess.made_stage {stage : LockStage} (h : p.stage.unreturned = []) (hstage : stage.unreturned = []) :
    { p with stage }.made = p.made := by
  rw [LockProcess.made,LockProcess.made,h,hstage]

@[simp] theorem LockProcess.leave_held : (p.leave transform ok releaseAfter).held = p.held := by
  unfold LockProcess.leave
  split <;> rfl

theorem LockProcess.sound_leave (h : p.held = true) : (p.leave transform ok releaseAfter).Sound content := by
  unfold LockProcess.leave
  split
  · exact h
  · trivial

/-- A rewrite that ends is made if it went well. -/
theorem LockProcess.made_leave (h : p.stage.unreturned = []) :
    (p.leave transform ok releaseAfter).made = p.made ++ (if ok then [transform] else []) := by
  unfold LockProcess.leave LockProcess.made
  rw [h]
  cases ok <;> split <;> simp [LockStage.unreturned,LockProcess.finish,LockCall.made]

theorem LockProcess.begin_held : (p.begin call).held = p.held := by
  unfold LockProcess.begin
  cases call <;> simp only [apply_ite LockProcess.held,finish_held,ite_self]

theorem LockProcess.made_begin (h : p.stage = .idle) : (p.begin call).made = p.made := by
  have hnone : p.stage.unreturned = [] := by rw [h]; rfl
  cases call with
  | acquire =>
    unfold LockProcess.begin
    dsimp only
    split_ifs
    · exact made_finish hnone
    · exact made_finish hnone
    · exact made_stage hnone rfl
  | rewrite transform =>
    unfold LockProcess.begin
    dsimp only
    split_ifs
    · exact made_finish hnone
    · exact made_stage hnone rfl
    · exact made_stage hnone rfl
  | release =>
    unfold LockProcess.begin
    dsimp only
    split_ifs
    · exact made_stage hnone rfl
    · exact made_finish hnone

theorem LockProcess.sound_begin : (p.begin call).Sound content := by
  cases htimeout : p.timeout with
  | none =>
    cases call with
    | acquire => simp [LockProcess.begin,htimeout,sound_finish]
    | rewrite transform => simp [LockProcess.begin,htimeout,sound_finish]
    | release =>
      unfold LockProcess.begin
      dsimp only
      split_ifs with hheld
      · exact hheld
      · trivial
  | some timeout =>
    unfold LockProcess.begin
    cases call <;> simp only [htimeout,Option.isNone_some,Bool.false_eq_true,if_false] <;> split_ifs with hheld
    · trivial
    · exact ⟨Bool.eq_false_iff.mpr hheld,_,rfl,Nat.zero_le _⟩
    · exact hheld
    · exact ⟨Bool.eq_false_iff.mpr hheld,_,rfl,Nat.zero_le _⟩
    · exact hheld
    · trivial

theorem LockProcess.acquired_held : (p.acquired call).held = true := by
  cases call <;> rfl

theorem LockProcess.sound_acquired : (p.acquired call).Sound content := by
  cases call with
  | acquire => trivial
  | rewrite transform => exact rfl
  | release => trivial

theorem LockProcess.made_acquired (h : p.stage.unreturned = []) : (p.acquired call).made = p.made := by
  cases call with
  | acquire => exact made_finish (p := { p with held := true }) h
  | rewrite transform => exact made_stage (p := { p with held := true }) h rfl
  | release => exact made_finish (p := { p with held := true }) h

/-- A process that does not hold the lock is at no stage that depends on the content. -/
theorem LockProcess.Sound.of_not_held {content' : Str} (h : p.Sound content) (hheld : p.held = false) :
    p.Sound content' := by
  unfold LockProcess.Sound at h ⊢
  cases hstage : p.stage with
  | idle => trivial
  | making waited call => simpa only [hstage] using h
  | reading transform releaseAfter =>
    simp only [hstage] at h
    exact absurd (hheld.symm.trans h) Bool.false_ne_true
  | replacing transform currentLines releaseAfter =>
    simp only [hstage] at h
    exact absurd (hheld.symm.trans h.1) Bool.false_ne_true
  | removing call ok =>
    simp only [hstage] at h
    exact absurd (hheld.symm.trans h) Bool.false_ne_true

end

namespace LockedFile
variable {s t : LockedFile} {i : ℕ} {call : LockCall} {waited : ℕ} {fails : Bool} {action : LockAction}

theorem attempt_moved (h : (s.process i).stage = .making waited call)
    (hsound : (s.process i).Sound s.content) : s.Moved (s.attempt i waited call fails) i := by
  have hnone : (s.process i).stage.unreturned = [] := by rw [h]; rfl
  simp only [LockProcess.Sound,h] at hsound
  obtain ⟨hheld,timeout,htimeout,hwaited⟩ := hsound
  unfold attempt
  dsimp only
  split_ifs with hfree hover
  · rw [Bool.and_eq_true,Bool.not_eq_true',Bool.not_eq_true'] at hfree
    exact .lock _ hfree.2 rfl LockProcess.acquired_held (LockProcess.made_acquired hnone) LockProcess.sound_acquired
  · refine .quiet _ rfl rfl (LockProcess.made_finish ?_) trivial
    rw [hnone]
    cases call <;> rfl
  · refine .quiet _ rfl rfl (LockProcess.made_stage hnone rfl) ⟨hheld,timeout,htimeout,?_⟩
    rw [htimeout,Option.all_some,decide_eq_true_eq] at hover
    omega

theorem advance_moved (h : s.advance i fails = some t) (hsound : (s.process i).Sound s.content) : s.Moved t i := by
  unfold advance at h
  dsimp only at h
  cases hstage : (s.process i).stage with
  | idle => simp [hstage] at h
  | making waited call =>
    simp only [hstage,Option.some.injEq] at h
    subst h
    exact attempt_moved hstage hsound
  | reading transform releaseAfter =>
    have hnone : (s.process i).stage.unreturned = [] := by rw [hstage]; rfl
    simp only [LockProcess.Sound,hstage] at hsound
    simp only [hstage,Option.some.injEq] at h
    subst h
    split_ifs
    · refine .quiet _ rfl LockProcess.leave_held ?_ (LockProcess.sound_leave hsound)
      exact (LockProcess.made_leave hnone).trans (List.append_nil _)
    · exact .quiet _ rfl rfl (LockProcess.made_stage hnone rfl) ⟨hsound,rfl⟩
  | replacing transform currentLines releaseAfter =>
    have hnone : (s.process i).stage.unreturned = [] := by rw [hstage]; rfl
    simp only [LockProcess.Sound,hstage] at hsound
    obtain ⟨hheld,rfl⟩ := hsound
    simp only [hstage,Option.some.injEq] at h
    subst h
    split_ifs
    · refine .quiet _ rfl LockProcess.leave_held ?_ (LockProcess.sound_leave hheld)
      exact (LockProcess.made_leave hnone).trans (List.append_nil _)
    · exact .replace _ transform hheld rfl (LockProcess.leave_held.trans hheld) (LockProcess.made_leave hnone)
        fun _ => LockProcess.sound_leave hheld
  | removing call ok =>
    simp only [LockProcess.Sound,hstage] at hsound
    simp only [hstage,Option.some.injEq] at h
    subst h
    refine .unlock _ _ hsound rfl rfl ?_ fun _ => trivial
    refine LockProcess.made_finish (p := { s.process i with held := false }) ?_
    change (s.process i).stage.unreturned = _
    rw [hstage]
    cases call <;> cases ok <;> rfl

theorem step_moved (h : step s action = some t) (hsound : ∀ i, (s.process i).Sound s.content) :
    s.Moved t action.process := by
  cases action with
  | call i call =>
    simp only [step] at h
    split_ifs at h
    split at h
    · next hidle =>
      cases h
      exact .quiet _ rfl LockProcess.begin_held (LockProcess.made_begin hidle) LockProcess.sound_begin
    · cases h
  | advance i fails =>
    simp only [step] at h
    split_ifs at h
    exact advance_moved h (hsound i)
  | kill i =>
    cases h
    exact .quiet _ rfl rfl rfl (hsound i)

/-! Runs -/

/-- The rewrites that a process made, in the order in which the file was replaced. -/
def replacedBy (s : LockedFile) (i : ℕ) : List Transform := (s.replaced.filter (·.1 = i)).map (·.2)

/-- The content after rewrites, one after the other. -/
def rewritten (content : Str) (replaced : List (ℕ × Transform)) : Str :=
  replaced.foldl (fun content entry => rewriteWudFile entry.2 content) content

/-- At most one process holds the lock, and the file is what the rewrites made of it one after the other. -/
structure Serial (initial : Str) (s : LockedFile) : Prop where
  process : ∀ i, (s.process i).Sound s.content
  exclusive : ∀ i j, (s.process i).held = true → (s.process j).held = true → i = j
  locked : ∀ i, (s.process i).held = true → s.lockDir = true
  content : s.content = rewritten initial s.replaced
  made : ∀ i, s.replacedBy i = (s.process i).made

variable {initial : Str} {p : LockProcess}

theorem put_process (s : LockedFile) (i : ℕ) (p : LockProcess) : (s.put i p).process = Function.update s.process i p :=
  rfl

theorem put_self (s : LockedFile) (i : ℕ) (p : LockProcess) : (s.put i p).process i = p := Function.update_self ..

theorem put_other {j : ℕ} (h : j ≠ i) (s : LockedFile) (p : LockProcess) :
    (s.put i p).process j = s.process j := Function.update_of_ne h ..

/-- Where the moving process keeps the lock or goes on without it, the same processes hold it as before. -/
theorem held_put (h : p.held = (s.process i).held) (j : ℕ) : ((s.put i p).process j).held = (s.process j).held := by
  by_cases hj : j = i
  · subst hj
    rw [put_self,h]
  · rw [put_other hj]

theorem made_put (h : ∀ j, s.replacedBy j = (s.process j).made) (hmade : p.made = (s.process i).made) (j : ℕ) :
    s.replacedBy j = ((s.put i p).process j).made := by
  by_cases hj : j = i
  · subst hj
    rw [put_self,hmade,h]
  · rw [put_other hj,h]

/-- While a process holds the lock, no other does. -/
theorem Serial.not_held (h : s.Serial initial) (hheld : (s.process i).held = true) {j : ℕ} (hj : j ≠ i) :
    (s.process j).held = false := by
  rw [Bool.eq_false_iff]
  exact fun hother => hj (h.exclusive j i hother hheld)

theorem Serial.moved (h : s.Serial initial) (hm : s.Moved t i) : t.Serial initial := by
  cases hm with
  | quiet p ht hheld hmade hsound =>
    subst ht
    refine ⟨fun j => ?_,fun j k hj hk => ?_,fun j hj => ?_,h.content,made_put h.made hmade⟩
    · by_cases hj : j = i
      · subst hj
        rwa [put_self]
      · rw [put_other hj]
        exact h.process j
    · rw [held_put hheld] at hj hk
      exact h.exclusive j k hj hk
    · rw [held_put hheld] at hj
      exact h.locked j hj
  | lock p hfree ht hheld hmade hsound =>
    subst ht
    have hnone (j : ℕ) : (s.process j).held = false := by
      rw [Bool.eq_false_iff]
      exact fun hj => Bool.false_ne_true (hfree.symm.trans (h.locked j hj))
    have honly (j : ℕ) (hj : (({ s with lockDir := true }.put i p).process j).held = true) : j = i := by
      by_contra hne
      rw [put_other hne] at hj
      exact Bool.false_ne_true ((hnone j).symm.trans hj)
    refine ⟨fun j => ?_,fun j k hj hk => (honly j hj).trans (honly k hk).symm,fun _ _ => rfl,h.content,
      made_put h.made hmade⟩
    by_cases hj : j = i
    · subst hj
      rwa [put_self]
    · rw [put_other hj]
      exact h.process j
  | replace p transform hheld ht hkept hmade hsound =>
    subst ht
    have hsame := held_put (s := { s with
      content := rewriteWudFile transform s.content
      replaced := s.replaced ++ [(i,transform)] }) (hkept.trans hheld.symm)
    refine ⟨fun j => ?_,fun j k hj hk => ?_,fun j hj => ?_,?_,fun j => ?_⟩
    · by_cases hj : j = i
      · subst hj
        rw [put_self]
        exact hsound _
      · rw [put_other hj]
        exact (h.process j).of_not_held (h.not_held hheld hj)
    · rw [hsame] at hj hk
      exact h.exclusive j k hj hk
    · rw [hsame] at hj
      exact h.locked j hj
    · change rewriteWudFile transform s.content = rewritten initial (s.replaced ++ [(i,transform)])
      rw [rewritten,List.foldl_append,h.content]
      rfl
    · change ((s.replaced ++ [(i,transform)]).filter (·.1 = j)).map (·.2) = _
      rw [List.filter_append,List.map_append]
      by_cases hj : j = i
      · subst hj
        rw [put_self,hmade,← h.made]
        simp [replacedBy]
      · rw [put_other hj,← h.made]
        simp [replacedBy,Ne.symm hj]
  | unlock p lockDir hheld ht hfreed hmade hsound =>
    subst ht
    have hnone (j : ℕ) : (({ s with lockDir }.put i p).process j).held = false := by
      by_cases hj : j = i
      · subst hj
        rwa [put_self]
      · rw [put_other hj]
        exact h.not_held hheld hj
    refine ⟨fun j => ?_,fun j k hj _ => ?_,fun j hj => ?_,h.content,made_put h.made hmade⟩
    · by_cases hj : j = i
      · subst hj
        rw [put_self]
        exact hsound _
      · rw [put_other hj]
        exact h.process j
    · exact absurd ((hnone j).symm.trans hj) Bool.false_ne_true
    · exact absurd ((hnone j).symm.trans hj) Bool.false_ne_true

theorem Serial.step (h : s.Serial initial) (hs : LockedFile.step s action = some t) : t.Serial initial :=
  h.moved (step_moved hs h.process)

/-- A file that no process works on yet. -/
def start (content : Str) (timeout : ℕ → Option ℕ) : LockedFile where
  content := content
  process i := { timeout := timeout i }

theorem serial_start (content : Str) (timeout : ℕ → Option ℕ) : (start content timeout).Serial content where
  process _ := trivial
  exclusive _ _ hi _ := absurd hi Bool.false_ne_true
  locked _ hi := absurd hi Bool.false_ne_true
  content := rfl
  made _ := rfl

theorem serial_run {actions : List LockAction} (h : s.Serial initial)
    (hr : System.run LockedFile.step s actions = some t) : t.Serial initial :=
  System.run_keeps (fun _ _ _ hs hstep => hs.step hstep) h hr

/-- While a process holds the lock, a step replaces the file for it or not at all. -/
theorem Serial.replaced_step (h : s.Serial initial) (hs : LockedFile.step s action = some t)
    (hheld : (s.process i).held = true) :
    ∃ own, t.replaced = s.replaced ++ own ∧ ∀ entry ∈ own, entry.1 = i := by
  cases step_moved hs h.process with
  | quiet p ht _ _ _ => exact ⟨[],by rw [ht,List.append_nil]; rfl,nofun⟩
  | lock p _ ht _ _ _ => exact ⟨[],by rw [ht,List.append_nil]; rfl,nofun⟩
  | replace p transform hother ht _ _ _ =>
    refine ⟨[(action.process,transform)],by rw [ht]; rfl,fun entry hentry => ?_⟩
    rw [List.mem_singleton.mp hentry]
    exact h.exclusive _ _ hother hheld
  | unlock p lockDir _ ht _ _ _ => exact ⟨[],by rw [ht,List.append_nil]; rfl,nofun⟩

theorem Serial.replaced_run {actions : List LockAction} (h : s.Serial initial)
    (hheld : System.Along LockedFile.step (fun u _ => (u.process i).held = true) s actions)
    (hr : System.run LockedFile.step s actions = some t) :
    ∃ own, t.replaced = s.replaced ++ own ∧ ∀ entry ∈ own, entry.1 = i := by
  induction actions generalizing s with
  | nil =>
    cases hr
    exact ⟨[],(List.append_nil _).symm,nofun⟩
  | cons action rest ih =>
    obtain ⟨u,hu,hr⟩ := Option.bind_eq_some_iff.mp hr
    obtain ⟨first,hfirst,hown⟩ := h.replaced_step hu hheld.1
    obtain ⟨later,hlater,hown'⟩ := ih (h.step hu) (hheld.2 u hu) hr
    refine ⟨first ++ later,by rw [hlater,hfirst,List.append_assoc],fun entry hentry => ?_⟩
    obtain hentry | hentry := List.mem_append.mp hentry
    · exact hown entry hentry
    · exact hown' entry hentry

/-- However the processes interleave, fail and are killed: one at most holds the lock, the file is what the rewrites
made of it one after the other, each is made once and is one that its process was told or is about to be told of, and
while a process holds the lock the file is replaced for it only. -/
theorem rewrites_serial {content : Str} {timeout : ℕ → Option ℕ} {actions : List LockAction}
    (h : System.run step (start content timeout) actions = some s) :
    (∀ i j, (s.process i).held = true → (s.process j).held = true → i = j) ∧
    s.content = rewritten content s.replaced ∧
    (∀ i, s.replacedBy i = (s.process i).results.flatMap LockCall.made ++ (s.process i).stage.unreturned) ∧
    ∀ before after u i, actions = before ++ after → System.run step (start content timeout) before = some u →
      System.Along step (fun v _ => (v.process i).held = true) u after →
        ∃ own, s.replaced = u.replaced ++ own ∧ ∀ entry ∈ own, entry.1 = i := by
  have hserial := serial_run (serial_start content timeout) h
  refine ⟨hserial.exclusive,hserial.content,hserial.made,fun before after u i hsplit hu hheld => ?_⟩
  rw [hsplit,System.run_append_of hu] at h
  exact (serial_run (serial_start content timeout) hu).replaced_run hheld h

/-- Two processes that append a line; the second waits for the lock and finds it free when it tries again. -/
def twoAppends : List LockAction :=
  [.call 0 (.rewrite (· ++ ["redis:7".toList])),.advance 0 false,.call 1 (.rewrite (· ++ ["nginx:1".toList])),
    .advance 1 false,.advance 0 false,.advance 1 false,.advance 0 false,.advance 0 false] ++
    List.replicate 4 (.advance 1 false)

theorem rewrites_serial_two : ∃ s, System.run step (start "app:1\n".toList fun _ => some 30) twoAppends = some s ∧
    s.content = "app:1\nredis:7\nnginx:1\n".toList ∧
    (∀ i j, (s.process i).held = true → (s.process j).held = true → i = j) ∧
    s.content = rewritten "app:1\n".toList s.replaced ∧
    (∀ i, s.replacedBy i = (s.process i).results.flatMap LockCall.made ++ (s.process i).stage.unreturned) ∧
    ∀ before after u i, twoAppends = before ++ after →
      System.run step (start "app:1\n".toList fun _ => some 30) before = some u →
      System.Along step (fun v _ => (v.process i).held = true) u after →
        ∃ own, s.replaced = u.replaced ++ own ∧ ∀ entry ∈ own, entry.1 = i :=
  ⟨_,rfl,by decide +kernel,rewrites_serial rfl⟩

end LockedFile

end Wudup

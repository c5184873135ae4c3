import Wudup.PendingLoads

/-! What the loads of the pending list keep over every run: one fetch at a time, calls that are answered by a load that
is fresh enough, and an end to all of it. -/
namespace Wudup
open Library

namespace UpdatesStore
variable {ρ π : Type} {s t : UpdatesStore ρ π} {action : LoadAction ρ}

/-! What holds of every run -/

/-- What has settled is settled for good, and a load that has started stays. -/
theorem Moved.settled (h : Moved action s t) {i : ℕ} {result : Settlement} (hi : s.loads[i]? = some (.settled result)) :
    t.loads[i]? = some (.settled result) := by
  cases h with
  | kept _ hloads => rwa [hloads]
  | load hk hnext hloads =>
    rw [hloads,List.getElem?_set_ne]
    · exact hi
    · rintro rfl
      rw [hi] at hk
      cases hk
      exact hnext.ne_settled result rfl
  | start hfree hloads =>
    obtain ⟨hlt,-⟩ := List.getElem?_eq_some_iff.mp hi
    rw [hloads,List.getElem?_append_left hlt]
    exact hi
  | queue _ _ _ hloads => rwa [hloads]
  | adopt _ _ hloads => rwa [hloads]

theorem Moved.length_le (h : Moved action s t) : s.loads.length ≤ t.loads.length := by
  cases h with
  | kept _ hloads => exact hloads ▸ Nat.le_refl _
  | load _ _ hloads => simp [hloads]
  | start _ hloads =>
    rw [hloads,List.length_append]
    omega
  | queue _ _ _ hloads => exact hloads ▸ Nat.le_refl _
  | adopt _ _ hloads => exact hloads ▸ Nat.le_refl _

theorem Moved.adopts (h : Moved action s t) {stage : TrailingStage} (hs : stage.Adopts s.loads) :
    stage.Adopts t.loads := by
  cases stage with
  | waiting => trivial
  | started load => exact Nat.lt_of_lt_of_le hs h.length_le
  | released load result => exact h.settled hs
  | settled load result => exact h.settled hs

theorem sound_load (h : s.Sound) {i : ℕ} {before after : LoadStage} (hi : s.loads[i]? = some before)
    (hnext : before.Next after) (hm : Moved action s t) (hloads : t.loads = s.loads.set i after)
    (htrailings : t.trailings = s.trailings)
    (hinFlight : t.pendingLoadInFlight =
      if after.done = before.done then s.pendingLoadInFlight else s.pendingLoadTrailing)
    (htrailing : t.pendingLoadTrailing = s.pendingLoadTrailing)
    (hanswered : t.answered = if before = .fetching then s.answered ++ [i] else s.answered) : t.Sound := by
  obtain ⟨hlt,-⟩ := List.getElem?_eq_some_iff.mp hi
  have hself : (s.loads.set i after)[i]? = some after := List.getElem?_set_self hlt
  refine ⟨?_,?_,?_,?_,?_,?_,?_⟩
  · intro k stage hk hdone
    rw [hloads] at hk
    obtain ⟨rfl,rfl⟩ | ⟨hne,hk⟩ := getElem?_set_cases hk
    · have hsame : stage.done = before.done := by cases hnext <;> first | rfl | cases hdone
      rw [hloads,List.length_set,hinFlight,if_pos hsame]
      exact h.busy k before hi (hsame ▸ hdone)
    · obtain ⟨hlast,hflight⟩ := h.busy k stage hk hdone
      have hbefore : before.done = true := by
        by_contra hbusy
        have hother := h.busy i before hi (by simpa using hbusy)
        omega
      have hafter : after.done = true := by cases hnext <;> first | rfl | cases hbefore
      rw [hloads,List.length_set,hinFlight,if_pos (hafter.trans hbefore.symm)]
      exact ⟨hlast,hflight⟩
  · intro hfree
    rw [hloads] at hfree
    have hafter : after.done = true := hfree after (List.mem_iff_getElem?.mpr ⟨i,hself⟩)
    rw [hinFlight,htrailing]
    split
    · rename_i hsame
      apply h.free
      intro stage hmem
      obtain ⟨k,hk⟩ := List.mem_iff_getElem?.mp hmem
      by_cases hki : k = i
      · subst hki
        rw [hi] at hk
        cases hk
        exact hsame ▸ hafter
      · exact hfree stage (List.mem_iff_getElem?.mpr ⟨k,by rwa [List.getElem?_set_ne (Ne.symm hki)]⟩)
    · rfl
  · rw [htrailing,htrailings]
    exact h.queued
  · rw [htrailing,htrailings,hloads,List.length_set]
    exact h.waiting
  · intro j trailing hj
    rw [htrailings] at hj
    exact hm.adopts (h.adopted j trailing hj)
  · rw [hanswered]
    split
    · rename_i hfetching
      rw [List.pairwise_append]
      refine ⟨h.order,List.pairwise_singleton _ _,?_⟩
      intro k hk other hother
      obtain rfl := List.mem_singleton.mp hother
      obtain ⟨stage,hstage,hne⟩ := (h.answered k).mp hk
      obtain ⟨hlast,-⟩ := h.busy other before hi (by rw [hfetching]; rfl)
      obtain ⟨hklt,-⟩ := List.getElem?_eq_some_iff.mp hstage
      have hdiffers : k ≠ other := by
        rintro rfl
        rw [hi] at hstage
        cases hstage
        exact hne hfetching
      omega
    · exact h.order
  · intro k
    rw [hloads]
    by_cases hki : k = i
    · subst hki
      rw [hself]
      have hmem : k ∈ t.answered := by
        rw [hanswered]
        split
        · exact List.mem_append_right _ List.mem_cons_self
        · rename_i hne
          exact (h.answered k).mpr ⟨before,hi,hne⟩
      exact ⟨fun _ => ⟨after,rfl,hnext.ne_fetching⟩,fun _ => hmem⟩
    · rw [List.getElem?_set_ne (Ne.symm hki),← h.answered k,hanswered]
      split
      · simp [hki]
      · rfl

theorem sound_start (h : s.Sound) (hfree : ∀ stage ∈ s.loads, stage.done = true) (hm : Moved action s t)
    (hloads : t.loads = s.loads ++ [.fetching])
    (hsource : (action.IsCall ∧ s.pendingLoadTrailing = none ∧ t.trailings = s.trailings) ∨
      ∃ (j : ℕ) (active : PendingPromise), s.trailings[j]? = some ⟨active,.waiting⟩ ∧
        t.trailings = s.trailings.set j ⟨active,.started s.loads.length⟩)
    (hinFlight : t.pendingLoadInFlight = some (.load s.loads.length)) (htrailing : t.pendingLoadTrailing = none)
    (hanswered : t.answered = s.answered) : t.Sound := by
  refine ⟨?_,?_,?_,?_,?_,?_,?_⟩
  · intro k stage hk hdone
    rw [hloads] at hk
    obtain ⟨rfl,-⟩ | hk := getElem?_concat_cases hk
    · rw [hloads,List.length_append]
      exact ⟨rfl,hinFlight⟩
    · rw [hfree stage (List.mem_iff_getElem?.mpr ⟨k,hk⟩)] at hdone
      cases hdone
  · intro hall
    have hlast := hall .fetching (by rw [hloads]; exact List.mem_append_right _ List.mem_cons_self)
    cases hlast
  · intro trailing hsome
    rw [htrailing] at hsome
    cases hsome
  · intro j active hj
    exfalso
    obtain ⟨-,hnone,htrailings⟩ | ⟨k,other,hk,htrailings⟩ := hsource
    · rw [htrailings] at hj
      obtain ⟨hqueued,-⟩ := h.waiting j active hj
      rw [hnone] at hqueued
      cases hqueued
    · rw [htrailings] at hj
      obtain ⟨-,heq⟩ | ⟨hne,hj⟩ := getElem?_set_cases hj
      · cases heq
      · obtain ⟨hqueued,-⟩ := h.waiting j active hj
        rw [(h.waiting k other hk).1] at hqueued
        cases hqueued
        exact hne rfl
  · intro j trailing hj
    obtain ⟨-,-,htrailings⟩ | ⟨k,other,hk,htrailings⟩ := hsource
    · rw [htrailings] at hj
      exact hm.adopts (h.adopted j trailing hj)
    · rw [htrailings] at hj
      obtain ⟨-,rfl⟩ | ⟨-,hj⟩ := getElem?_set_cases hj
      · rw [hloads]
        simp [TrailingStage.Adopts]
      · exact hm.adopts (h.adopted j trailing hj)
  · rw [hanswered]
    exact h.order
  · intro k
    rw [hanswered,h.answered k,hloads]
    constructor
    · rintro ⟨stage,hk,hne⟩
      obtain ⟨hlt,-⟩ := List.getElem?_eq_some_iff.mp hk
      exact ⟨stage,(List.getElem?_append_left hlt).trans hk,hne⟩
    · rintro ⟨stage,hk,hne⟩
      obtain ⟨-,rfl⟩ | hk := getElem?_concat_cases hk
      · exact (hne rfl).elim
      · exact ⟨stage,hk,hne⟩

theorem Moved.sound (h : s.Sound) (hm : Moved action s t) : t.Sound := by
  have hmoved := hm
  cases hm with
  | kept _ hloads htrailings hinFlight htrailing hanswered =>
    refine ⟨?_,?_,?_,?_,?_,?_,?_⟩
    · rw [hloads,hinFlight]
      exact h.busy
    · rw [hloads,hinFlight,htrailing]
      exact h.free
    · rw [htrailing,htrailings]
      exact h.queued
    · rw [htrailing,htrailings,hloads]
      exact h.waiting
    · rw [htrailings,hloads]
      exact h.adopted
    · rw [hanswered]
      exact h.order
    · rw [hanswered,hloads]
      exact h.answered
  | load hi hnext hloads htrailings hinFlight htrailing hanswered =>
    exact sound_load h hi hnext hmoved hloads htrailings hinFlight htrailing hanswered
  | start hfree hloads hsource hinFlight htrailing hanswered =>
    exact sound_start h hfree hmoved hloads hsource hinFlight htrailing hanswered
  | @queue i hcall hi hnone hloads htrailings hbusy hinFlight htrailing hanswered =>
    refine ⟨?_,?_,?_,?_,?_,?_,?_⟩
    · rw [hloads,hinFlight]
      exact h.busy
    · intro hall
      obtain ⟨stage,hstage,hdone⟩ := hbusy
      rw [hloads] at hall
      rw [hall stage (List.mem_iff_getElem?.mpr ⟨i,hstage⟩)] at hdone
      cases hdone
    · intro trailing hsome
      rw [htrailing] at hsome
      cases hsome
      exact ⟨_,.load i,rfl,by simp [htrailings]⟩
    · intro j active hj
      rw [htrailings] at hj
      rw [htrailing,hloads]
      obtain ⟨rfl,heq⟩ | hj := getElem?_concat_cases hj
      · cases heq
        exact ⟨rfl,i,rfl,hi⟩
      · obtain ⟨hqueued,-⟩ := h.waiting j active hj
        rw [hnone] at hqueued
        cases hqueued
    · intro j trailing hj
      rw [htrailings] at hj
      obtain ⟨-,rfl⟩ | hj := getElem?_concat_cases hj
      · trivial
      · rw [hloads]
        exact h.adopted j trailing hj
    · rw [hanswered]
      exact h.order
    · rw [hanswered,hloads]
      exact h.answered
  | @adopt j active before after hj hnext hloads htrailings hinFlight htrailing hanswered =>
    have hbefore : before ≠ .waiting := by cases hnext <;> exact nofun
    have hafter : after ≠ .waiting := by cases hnext <;> exact nofun
    obtain ⟨hlt,-⟩ := List.getElem?_eq_some_iff.mp hj
    refine ⟨?_,?_,?_,?_,?_,?_,?_⟩
    · rw [hloads,hinFlight]
      exact h.busy
    · rw [hloads,hinFlight,htrailing]
      exact h.free
    · intro trailing hsome
      rw [htrailing] at hsome
      obtain ⟨k,other,rfl,hk⟩ := h.queued trailing hsome
      refine ⟨k,other,rfl,?_⟩
      rw [htrailings,List.getElem?_set_ne]
      · exact hk
      · rintro rfl
        rw [hj] at hk
        cases hk
        exact hbefore rfl
    · intro k other hk
      rw [htrailings] at hk
      obtain ⟨-,heq⟩ | ⟨-,hk⟩ := getElem?_set_cases hk
      · cases heq
        exact (hafter rfl).elim
      · rw [htrailing,hloads]
        exact h.waiting k other hk
    · intro k trailing hk
      rw [htrailings] at hk
      rw [hloads]
      obtain ⟨-,rfl⟩ | ⟨-,hk⟩ := getElem?_set_cases hk
      · have hadopted := h.adopted j _ hj
        cases hnext with
        | started hsettled => exact hsettled
        | released load result => exact hadopted
      · exact h.adopted k trailing hk
    · rw [hanswered]
      exact h.order
    · rw [hanswered,hloads]
      exact h.answered

theorem sound_run {actions : List (LoadAction ρ)} (h : s.Sound) (hr : System.run step s actions = some t) : t.Sound :=
  System.run_keeps (fun _ _ _ hsound hs => (step_moved hsound hs).sound hsound) h hr

/-- The trailing load has yet to start one, or has started one that is not among the first loads. -/
def Trails (first j : ℕ) (s : UpdatesStore ρ π) : Prop :=
  first ≤ s.loads.length ∧ ∃ trailing, s.trailings[j]? = some trailing ∧
    ∀ load ∈ trailing.stage.load?, first ≤ load

theorem Moved.trails {first j : ℕ} (h : s.Trails first j) (hm : Moved action s t) : t.Trails first j := by
  obtain ⟨hfirst,trailing,hj,hload⟩ := h
  refine ⟨Nat.le_trans hfirst hm.length_le,?_⟩
  obtain ⟨hlt,-⟩ := List.getElem?_eq_some_iff.mp hj
  have hset (k : ℕ) (other : TrailingLoad) (hother : k = j → ∀ load ∈ other.stage.load?, first ≤ load) :
      ∃ trailing, (s.trailings.set k other)[j]? = some trailing ∧ ∀ load ∈ trailing.stage.load?, first ≤ load := by
    by_cases hkj : k = j
    · subst hkj
      exact ⟨other,List.getElem?_set_self hlt,hother rfl⟩
    · exact ⟨trailing,(List.getElem?_set_ne hkj).trans hj,hload⟩
  cases hm with
  | kept _ _ htrailings => exact ⟨trailing,htrailings ▸ hj,hload⟩
  | load _ _ _ htrailings => exact ⟨trailing,htrailings ▸ hj,hload⟩
  | start _ _ hsource =>
    obtain ⟨-,-,htrailings⟩ | ⟨k,active,hk,htrailings⟩ := hsource
    · exact ⟨trailing,htrailings ▸ hj,hload⟩
    · rw [htrailings]
      apply hset
      rintro - load hmem
      cases hmem
      exact hfirst
  | queue _ _ _ _ htrailings => exact ⟨trailing,htrailings ▸ (List.getElem?_append_left hlt).trans hj,hload⟩
  | adopt hk hnext _ htrailings =>
    rw [htrailings]
    apply hset
    rintro rfl
    rw [hk] at hj
    cases hj
    cases hnext with
    | started => exact hload
    | released => exact hload

theorem trails_run {first j : ℕ} {actions : List (LoadAction ρ)} (hsound : s.Sound) (h : s.Trails first j)
    (hr : System.run step s actions = some t) : t.Trails first j := by
  have hboth : t.Sound ∧ t.Trails first j := by
    apply System.run_keeps _ ⟨hsound,h⟩ hr
    rintro u action v ⟨hsound,htrails⟩ hs
    have hm := step_moved hsound hs
    exact ⟨hm.sound hsound,hm.trails htrails⟩
  exact hboth.2

/-! Everything settles -/

/-- A bound on the answers and continuations that are still to come. -/
def left (s : UpdatesStore ρ π) : ℕ :=
  (s.loads.map LoadStage.left).sum + (s.trailings.map fun trailing => trailing.stage.left).sum

theorem Moved.left_lt (hcall : ¬ action.IsCall) (hm : Moved action s t) : t.left < s.left := by
  unfold left
  cases hm with
  | kept hthis => exact (hcall hthis).elim
  | queue hthis => exact (hcall hthis).elim
  | @load i before after hi hnext hloads htrailings =>
    have hsum := sum_map_set hi after LoadStage.left
    have hstep : after.left < before.left := by cases hnext <;> exact Nat.lt_succ_self _
    rw [hloads,htrailings]
    omega
  | start _ hloads hsource =>
    obtain ⟨hthis,-⟩ | ⟨j,active,hj,htrailings⟩ := hsource
    · exact (hcall hthis).elim
    · have hsum := sum_map_set hj ⟨active,.started s.loads.length⟩ fun trailing => trailing.stage.left
      rw [hloads,htrailings,List.map_append,List.sum_append]
      simp only [TrailingStage.left,LoadStage.left,List.map_cons,List.map_nil,List.sum_cons,List.sum_nil] at hsum ⊢
      omega
  | @adopt j active before after hj hnext hloads htrailings =>
    have hsum := sum_map_set hj ⟨active,after⟩ fun trailing => trailing.stage.left
    have hstep : after.left < before.left := by cases hnext <;> exact Nat.lt_succ_self _
    rw [hloads,htrailings]
    simp only at hsum
    omega

theorem length_run_le {actions : List (LoadAction ρ)} (h : s.Sound) (hcalls : ∀ action ∈ actions, ¬ action.IsCall)
    (hr : System.run step s actions = some t) : actions.length ≤ s.left := by
  induction actions generalizing s with
  | nil => exact Nat.zero_le _
  | cons action rest ih =>
    obtain ⟨u,hu,hr⟩ := Option.bind_eq_some_iff.mp hr
    have hm := step_moved h hu
    have hrest := ih (hm.sound h) (fun other hother => hcalls other (List.mem_cons_of_mem _ hother)) hr
    have hlt := hm.left_lt (hcalls action List.mem_cons_self)
    rw [List.length_cons]
    omega

/-- Without calls no step can be taken: every promise has settled. -/
theorem settled_of_stuck (h : s.Sound) (hstuck : ∀ action : LoadAction ρ, ¬ action.IsCall → step s action = none) :
    (∀ i < s.loads.length, (s.settlement (.load i)).isSome) ∧
      ∀ j < s.trailings.length, (s.settlement (.trailing j)).isSome := by
  have hloads : ∀ i < s.loads.length, (s.settlement (.load i)).isSome := by
    intro i hlt
    have hadvance := hstuck (.advance i) id
    have hi : s.loads[i]? = some s.loads[i] := List.getElem?_eq_getElem hlt
    generalize s.loads[i] = stage at hi
    simp only [step,advance,hi] at hadvance
    cases stage with
    | fetching =>
      have hanswer := hstuck (.answer i (.error .other)) id
      simp [step,answer,hi] at hanswer
    | settled result => exact Option.isSome_iff_exists.mpr ⟨result,settlement_load.mpr hi⟩
    | _ => cases hadvance
  refine ⟨hloads,?_⟩
  intro j hlt
  have hresume := hstuck (.resume j) id
  have hj : s.trailings[j]? = some s.trailings[j] := List.getElem?_eq_getElem hlt
  generalize s.trailings[j] = trailing at hj
  obtain ⟨active,stage⟩ := trailing
  simp only [step,resume,hj] at hresume
  cases stage with
  | waiting =>
    obtain ⟨-,i,rfl,hlast⟩ := h.waiting j active hj
    simp [hloads i (by omega)] at hresume
  | started load =>
    obtain ⟨result,hresult⟩ := Option.isSome_iff_exists.mp (hloads load (h.adopted j _ hj))
    simp [hresult] at hresume
  | released load result => cases hresume
  | settled load result => exact Option.isSome_iff_exists.mpr ⟨result,settlement_trailing.mpr ⟨active,load,hj⟩⟩

/-! The promise of a call -/

/-- The promise is one of the store. -/
def Holds (s : UpdatesStore ρ π) : PendingPromise → Prop
  | .load i => i < s.loads.length
  | .trailing j => j < s.trailings.length

theorem Moved.holds {promise : PendingPromise} (h : s.Holds promise) (hm : Moved action s t) : t.Holds promise := by
  cases promise with
  | load i => exact Nat.lt_of_lt_of_le h hm.length_le
  | trailing j =>
    have htrailings : s.trailings.length ≤ t.trailings.length := by
      cases hm with
      | kept _ _ htrailings => simp [htrailings]
      | load _ _ _ htrailings => simp [htrailings]
      | start _ _ hsource =>
        obtain ⟨-,-,htrailings⟩ | ⟨k,active,-,htrailings⟩ := hsource
        · simp [htrailings]
        · simp [htrailings]
      | queue _ _ _ _ htrailings => simp [htrailings]
      | adopt _ _ _ htrailings => simp [htrailings]
    exact Nat.lt_of_lt_of_le h htrailings

theorem settlement_of_busy {i : ℕ} {stage : LoadStage} (hi : s.loads[i]? = some stage) (hdone : stage.done = false) :
    s.settlement (.load i) = none := by
  rw [settlement,hi,Option.bind_some]
  cases stage with
  | settled result => cases hdone
  | _ => rfl

/-- A call is given a load that has not settled, a new one if it must be fresh, or a trailing load that will start
one. -/
theorem call_spec (h : s.Sound) (freshAfterCurrent : Bool) :
    (s.loadPending freshAfterCurrent).1.Holds (s.loadPending freshAfterCurrent).2 ∧
    ((∃ i, (s.loadPending freshAfterCurrent).2 = .load i ∧ s.settlement (.load i) = none ∧
      (freshAfterCurrent = true → s.loads.length ≤ i)) ∨
    ∃ j, (s.loadPending freshAfterCurrent).2 = .trailing j ∧
      (s.loadPending freshAfterCurrent).1.Trails s.loads.length j) := by
  have hqueued (trailing : PendingPromise) (htrailing : s.pendingLoadTrailing = some trailing) :
      s.Holds trailing ∧ ∃ j, trailing = .trailing j ∧ s.Trails s.loads.length j := by
    obtain ⟨j,active,rfl,hj⟩ := h.queued trailing htrailing
    obtain ⟨hlt,-⟩ := List.getElem?_eq_some_iff.mp hj
    exact ⟨hlt,j,rfl,Nat.le_refl _,_,hj,fun _ h => by cases h⟩
  have hnew : s.startPendingLoad.1.Holds s.startPendingLoad.2 ∧ ∃ i, s.startPendingLoad.2 = .load i ∧
      s.settlement (.load i) = none ∧ (freshAfterCurrent = true → s.loads.length ≤ i) := by
    refine ⟨?_,_,rfl,?_,fun _ => Nat.le_refl _⟩
    · simp [startPendingLoad,Holds]
    · simp [settlement]
  unfold loadPending
  obtain ⟨i,stage,hi,hdone,-,hflight⟩ | ⟨-,hflight⟩ := h.inFlight_cases
  · rw [hflight]
    cases htrailing : s.pendingLoadTrailing with
    | none =>
      cases freshAfterCurrent with
      | false =>
        obtain ⟨hlt,-⟩ := List.getElem?_eq_some_iff.mp hi
        exact ⟨hlt,.inl ⟨i,rfl,settlement_of_busy hi hdone,fun h => by cases h⟩⟩
      | true =>
        refine ⟨?_,.inr ⟨_,rfl,Nat.le_refl _,⟨.load i,.waiting⟩,?_,fun _ h => by cases h⟩⟩
        · simp [Holds]
        · simp
    | some trailing =>
      obtain ⟨hholds,j,rfl,htrails⟩ := hqueued trailing htrailing
      cases freshAfterCurrent with
      | false => exact ⟨hholds,.inr ⟨j,rfl,htrails⟩⟩
      | true => exact ⟨hholds,.inr ⟨j,rfl,htrails⟩⟩
  · rw [hflight]
    cases htrailing : s.pendingLoadTrailing with
    | none => exact ⟨hnew.1,.inl hnew.2⟩
    | some trailing =>
      obtain ⟨hholds,j,rfl,htrails⟩ := hqueued trailing htrailing
      cases freshAfterCurrent with
      | false => exact ⟨hholds,.inr ⟨j,rfl,htrails⟩⟩
      | true => exact ⟨hholds,.inr ⟨j,rfl,htrails⟩⟩

theorem holds_run {promise : PendingPromise} {actions : List (LoadAction ρ)} (hsound : s.Sound)
    (h : s.Holds promise) (hr : System.run step s actions = some t) : t.Holds promise := by
  have hboth : t.Sound ∧ t.Holds promise := by
    apply System.run_keeps _ ⟨hsound,h⟩ hr
    rintro u action v ⟨hsound,hholds⟩ hs
    have hm := step_moved hsound hs
    exact ⟨hm.sound hsound,hm.holds hholds⟩
  exact hboth.2

/-- No load was started yet. -/
structure Unloaded (s : UpdatesStore ρ π) : Prop where
  inFlight : s.pendingLoadInFlight = none
  trailing : s.pendingLoadTrailing = none
  loads : s.loads = []
  trailings : s.trailings = []
  answered : s.answered = []

theorem Unloaded.sound (h : s.Unloaded) : s.Sound := by
  refine ⟨?_,?_,?_,?_,?_,?_,?_⟩
  · simp [h.loads]
  · simp [h.inFlight,h.trailing]
  · simp [h.trailing]
  · simp [h.trailings]
  · simp [h.trailings]
  · simp [h.answered]
  · simp [h.answered,h.loads]

/-- In every state that calls, answers and continuations lead to, in whatever order: one fetch at most is on its way,
and they were answered in the order of their starts; a call settles as a load does that had not settled, which was
started after the call if it must be fresh; a call settles once nothing else can happen, which is after a bounded number
of answers and continuations; and with no load on its way or queued nothing is held and the next call fetches. -/
theorem loadPending_coalesces {start s : UpdatesStore ρ π} {actions : List (LoadAction ρ)} (hstart : start.Unloaded)
    (hr : System.run step start actions = some s) :
    (∀ i j : ℕ, s.loads[i]? = some .fetching → s.loads[j]? = some .fetching → i = j) ∧
    s.answered.Pairwise (· < ·) ∧
    (∀ freshAfterCurrent later t, System.run step (s.loadPending freshAfterCurrent).1 later = some t →
      (∀ result, t.settlement (s.loadPending freshAfterCurrent).2 = some result →
        ∃ i, s.settlement (.load i) = none ∧ t.settlement (.load i) = some result ∧
          (freshAfterCurrent = true → s.loads.length ≤ i ∧ i ∈ t.answered)) ∧
      ((∀ action : LoadAction ρ, ¬ action.IsCall → step t action = none) →
        (t.settlement (s.loadPending freshAfterCurrent).2).isSome) ∧
      ((∀ action ∈ later, ¬ action.IsCall) → later.length ≤ (s.loadPending freshAfterCurrent).1.left)) ∧
    ((∀ stage ∈ s.loads, stage.done = true) → (∀ trailing ∈ s.trailings, trailing.stage ≠ .waiting) →
      s.pendingLoadInFlight = none ∧ s.pendingLoadTrailing = none ∧
        ∀ freshAfterCurrent, (s.loadPending freshAfterCurrent).1.loads = s.loads ++ [.fetching]) := by
  have hsound : s.Sound := sound_run hstart.sound hr
  refine ⟨?_,hsound.order,?_,?_⟩
  · intro i j hi hj
    obtain ⟨hilast,-⟩ := hsound.busy i _ hi rfl
    obtain ⟨hjlast,-⟩ := hsound.busy j _ hj rfl
    omega
  · intro freshAfterCurrent later t hlater
    have hcalled : (s.loadPending freshAfterCurrent).1.Sound := (moved_call hsound freshAfterCurrent).sound hsound
    have ht : t.Sound := sound_run hcalled hlater
    obtain ⟨hholds,hpromise⟩ := call_spec hsound freshAfterCurrent
    have hheld := holds_run hcalled hholds hlater
    refine ⟨?_,?_,fun hcalls => length_run_le hcalled hcalls hlater⟩
    · intro result hresult
      have hanswered {i : ℕ} (hi : t.settlement (.load i) = some result) : i ∈ t.answered :=
        (ht.answered i).mpr ⟨_,settlement_load.mp hi,nofun⟩
      obtain ⟨i,hi,hunsettled,hfresh⟩ | ⟨j,hj,htrails⟩ := hpromise
      · rw [hi] at hresult
        exact ⟨i,hunsettled,hresult,fun h => ⟨hfresh h,hanswered hresult⟩⟩
      · rw [hj] at hresult
        obtain ⟨active,load,hsettled⟩ := settlement_trailing.mp hresult
        obtain ⟨-,trailing,hget,hfirst⟩ := trails_run hcalled htrails hlater
        rw [hsettled] at hget
        cases hget
        have hle : s.loads.length ≤ load := hfirst load rfl
        have hload : t.settlement (.load load) = some result := settlement_load.mpr (ht.adopted j _ hsettled)
        refine ⟨load,?_,hload,fun _ => ⟨hle,hanswered hload⟩⟩
        rw [settlement,List.getElem?_eq_none hle]
        rfl
    · intro hstuck
      obtain ⟨hloads,htrailings⟩ := settled_of_stuck ht hstuck
      generalize (s.loadPending freshAfterCurrent).2 = promise at hheld ⊢
      cases promise with
      | load i => exact hloads i hheld
      | trailing j => exact htrailings j hheld
  · intro hfree hstarted
    have hnone : s.pendingLoadTrailing = none := by
      by_contra hsome
      obtain ⟨trailing,htrailing⟩ := Option.ne_none_iff_exists'.mp hsome
      obtain ⟨j,active,-,hj⟩ := hsound.queued trailing htrailing
      exact hstarted _ (List.mem_of_getElem? hj) rfl
    have hflight : s.pendingLoadInFlight = none := (hsound.free hfree).trans hnone
    refine ⟨hflight,hnone,fun freshAfterCurrent => ?_⟩
    rw [loadPending,hflight]
    rfl

/-- A fresh call while a load is on its way that fails: the trailing load fetches. -/
theorem loadPending_coalesces_failure :
    ∃ s, System.run step ({} : UpdatesStore ℕ ℕ) [.call false,.call true,.answer 0 (.error .other),.advance 0,
        .advance 0,.advance 0,.advance 0,.resume 0,.answer 1 (.ok 7)] = some s ∧
      s.pending = some 7 ∧ s.settlement (.load 0) = some (.error .other) ∧ s.answered.Pairwise (· < ·) := by
  have hstart : ({} : UpdatesStore ℕ ℕ).Unloaded := ⟨rfl,rfl,rfl,rfl,rfl⟩
  obtain ⟨s,hs⟩ : ∃ s, System.run step ({} : UpdatesStore ℕ ℕ) [.call false,.call true,.answer 0 (.error .other),
    .advance 0,.advance 0,.advance 0,.advance 0,.resume 0,.answer 1 (.ok 7)] = some s := ⟨_,rfl⟩
  refine ⟨s,hs,?_,?_,(loadPending_coalesces hstart hs).2.1⟩
  · cases hs
    rfl
  · cases hs
    rfl

end UpdatesStore
end Wudup

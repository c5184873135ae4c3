import Mathlib.Data.Set.Basic
import Wudup.DigestPlans
import Wudup.Library.Dict
import Wudup.Library.Traverse

/-! When the digest updates an updater computes for a stack are the ones the plan lists for it. -/
namespace Wudup
open Library

/-- A service, and the image, tag and digest it is updated by. -/
abbrev DigestPair := Str × Str × Str × Str

def pinPairs (updates : List DigestPinUpdate) : Set DigestPair :=
  { pair | ∃ u ∈ updates, pair.1 ∈ u.services ∧ pair.2 = (u.oldImage,u.resolvedTag,u.plannedDigest) }

def unpinPairs (updates : List DigestUnpinUpdate) : Set DigestPair :=
  { pair | ∃ u ∈ updates, pair.1 ∈ u.services ∧ pair.2 = u.key }

section
variable {pinning : Bool} (plan : DigestPlan pinning) (s : PlanStack pinning)

/-- The last pin the plan lists for an image and tag. -/
def lastListed (key : PinKey) : Option DigestPinUpdate :=
  (plan.flatMap (·.digestPinUpdates)).reverse.find? fun item => (item.oldImage,item.resolvedTag) = key

/-- The last pin listed for a stack's image and tag has the digest the stack lists. -/
def PinsAgree : Prop :=
  ∀ u ∈ s.digestPinUpdates, u.services ≠ [] → ∀ v, lastListed plan (u.oldImage,u.resolvedTag) = some v →
    normalizeDigest v.plannedDigest = u.plannedDigest

/-- The key an unpin is handed over under. -/
def handedKey (v : DigestUnpinUpdate) : UnpinKey := (v.oldImage,v.resolvedTag,normalizeDigest v.targetDigest)

/-- A service the stack matched through an image, resolved to the tag. -/
def MatchedService (matched : List Match) (oldImage resolvedTag service : Str) : Prop :=
  ∃ m ∈ matched, m.composeImage = oldImage ∧ m.resolved = imageWithTag oldImage resolvedTag ∧ m.service = service

/-- The unpin names a service that the stack matched with its image and tag. -/
def Shares (v : DigestUnpinUpdate) : Prop :=
  ∃ service ∈ v.services, MatchedService s.matched v.oldImage v.resolvedTag service

/-- The first unpin of its key in the plan that shares a service with the stack. -/
def FirstSharing (v : DigestUnpinUpdate) : Prop :=
  ∃ before after, plan.flatMap (·.digestUnpinUpdates) = before ++ v :: after ∧ Shares s v ∧
    ∀ w ∈ before, handedKey w = handedKey v → ¬Shares s w

def ListsUnpin (key : UnpinKey) (service : Str) : Prop :=
  ∃ u ∈ s.digestUnpinUpdates, u.key = key ∧ service ∈ u.services

/-- The stack matched the services it lists an unpin for; the first unpin of each key that shares a service
with the stack names those it lists under the key, and no others it matched; every key is handed over. -/
structure UnpinsAgree : Prop where
  matched : ∀ key service, ListsUnpin s key service → MatchedService s.matched key.1 key.2.1 service
  first : ∀ v, FirstSharing plan s v → ∀ service,
    MatchedService s.matched v.oldImage v.resolvedTag service →
      (service ∈ v.services ↔ ListsUnpin s (handedKey v) service)
  handed : ∀ u ∈ s.digestUnpinUpdates, u.services ≠ [] →
    ∃ v ∈ plan.flatMap (·.digestUnpinUpdates), handedKey v = u.key ∧ Shares s v

/-- The updates computed for a stack from the flattened plan are those the plan lists for it. -/
def Survives (rules : TagRules) {resolve : DigestPinCandidate → Option Str}
    (cache : Updater.PinCache (digestPinUpdatesFromPlan plan) resolve) : Prop :=
  (∃ pins, (Updater.digestPinUpdates pinning cache s.matched).1 = .ok pins ∧
    pinPairs pins = pinPairs s.digestPinUpdates) ∧
  unpinPairs (Updater.digestUnpinUpdates (digestUnpinUpdatesFromPlan rules plan) s.matched) =
    unpinPairs s.digestUnpinUpdates

end

/-! Pins -/

section
variable {plan : List DigestPinUpdate} {resolve : DigestPinCandidate → Option Str}

/-- The cache only saves work. -/
theorem digestPinUpdates_eq (cache : Updater.PinCache plan resolve) (matched : List Match)
    {candidates : List DigestPinCandidate} (h : digestPinCandidates matched = .ok candidates) :
    (Updater.digestPinUpdates true cache matched).1 = Updater.pinsForCandidates plan resolve candidates := by
  unfold Updater.digestPinUpdates
  simp only [Bool.not_true,Bool.false_eq_true,if_false,h]
  cases hc : cache.entries.lookup candidates with
  | some cached => exact (cache.stored _ (mem_of_lookup hc)).symm
  | none =>
    dsimp only
    split <;> simp_all

end

section
variable {pinning : Bool} {plan : DigestPlan pinning} {s : PlanStack pinning}

theorem plannedPin_fromPlan (key : PinKey) :
    Updater.plannedPin (digestPinUpdatesFromPlan plan) key = (lastListed plan key).map fun item =>
      digestPinUpdateFromValues item.oldImage item.resolvedTag item.plannedDigest item.services := by
  simp only [Updater.plannedPin,digestPinUpdatesFromPlan,lastListed,← List.map_reverse,List.find?_map]
  rfl

theorem exists_lastListed {u : DigestPinUpdate} (hs : s ∈ plan) (hu : u ∈ s.digestPinUpdates) :
    ∃ v, lastListed plan (u.oldImage,u.resolvedTag) = some v ∧ v.oldImage = u.oldImage ∧
      v.resolvedTag = u.resolvedTag := by
  have hsome : (lastListed plan (u.oldImage,u.resolvedTag)).isSome := by
    rw [lastListed,List.find?_isSome]
    exact ⟨u,List.mem_reverse.mpr (List.mem_flatMap.mpr ⟨s,hs,hu⟩),by simp⟩
  obtain ⟨v,hv⟩ := Option.isSome_iff_exists.mp hsome
  have hk := List.find?_some hv
  simp only [decide_eq_true_eq,Prod.mk.injEq] at hk
  exact ⟨v,hv,hk.1,hk.2⟩

/-- A candidate's services under the digest a rule gives it. -/
def candidatePairs (digest : DigestPinCandidate → Str) (candidates : List DigestPinCandidate) :
    Set DigestPair :=
  { pair | ∃ c ∈ candidates, pair.1 ∈ c.services ∧ pair.2 = (c.oldImage,c.resolvedTag,digest c) }

def DigestPinCandidate.key (c : DigestPinCandidate) : PinKey := (c.oldImage,c.resolvedTag)

theorem nodup_pinKeys (matched : List Match) : (pinKeys matched).Nodup :=
  (List.perm_insertionSort _ _).nodup_iff.mpr (nodup_orderedUnique _)

theorem digestPinCandidate_key {matched : List Match} {key : PinKey} {c : DigestPinCandidate}
    (h : digestPinCandidate matched key = .ok c) : c.key = key := by
  unfold digestPinCandidate at h
  dsimp only at h
  split at h
  · cases h
  · cases h
    rfl

/-- The candidates of a stack have distinct images and tags. -/
theorem nodup_candidates {matched : List Match} {candidates : List DigestPinCandidate}
    (h : digestPinCandidates matched = .ok candidates) : (candidates.map DigestPinCandidate.key).Nodup := by
  have hk : candidates.map DigestPinCandidate.key = pinKeys matched :=
    map_of_mapM (fun _ _ hc => digestPinCandidate_key hc) h
  rw [hk]
  exact nodup_pinKeys matched

/-- With distinct keys two digests give the same pairs only if they agree wherever there is a service. -/
theorem candidatePairs_inj {d e : DigestPinCandidate → Str} {candidates : List DigestPinCandidate}
    (hn : (candidates.map DigestPinCandidate.key).Nodup) :
    candidatePairs d candidates = candidatePairs e candidates ↔
      ∀ c ∈ candidates, c.services ≠ [] → d c = e c := by
  constructor
  · intro h c hc hs
    obtain ⟨service,hservice⟩ := List.exists_mem_of_ne_nil _ hs
    have hp : (service,c.oldImage,c.resolvedTag,d c) ∈ candidatePairs d candidates := ⟨c,hc,hservice,rfl⟩
    rw [h] at hp
    obtain ⟨c',hc',-,hk⟩ := hp
    simp only [Prod.mk.injEq] at hk
    have hcc : c = c' := List.inj_on_of_nodup_map hn hc hc' (by simp [DigestPinCandidate.key,hk.1,hk.2.1])
    rw [hk.2.2,hcc]
  · intro h
    ext pair
    constructor
    · intro ⟨c,hc,hs,hp⟩
      exact ⟨c,hc,hs,by rw [hp,h c hc (List.ne_nil_of_mem hs)]⟩
    · intro ⟨c,hc,hs,hp⟩
      exact ⟨c,hc,hs,by rw [hp,h c hc (List.ne_nil_of_mem hs)]⟩

/-- The pin a candidate gets of the plan. -/
def handedPin (plan : DigestPlan pinning) (c : DigestPinCandidate) : DigestPinUpdate :=
  let digest := ((lastListed plan c.key).map (·.plannedDigest)).getD []
  { digestPinUpdateFromValues c.oldImage c.resolvedTag digest c.services with services := c.services }

end

section
variable {plan : DigestPlan true} {s : PlanStack true}

def listedPin (s : PlanStack true) (c : DigestPinCandidate) : DigestPinUpdate :=
  digestPinUpdateFromValues c.oldImage c.resolvedTag (s.registryDigest c) c.services

theorem listed_pins (s : PlanStack true) : s.digestPinUpdates = s.candidates.map (listedPin s) := if_pos rfl

theorem mem_listedPin_services {service : Str} {c : DigestPinCandidate} :
    service ∈ (listedPin s c).services ↔ service ∈ c.services := by
  simp [listedPin,digestPinUpdateFromValues,List.mem_insertionSort]

theorem pinPairs_listed :
    pinPairs s.digestPinUpdates = candidatePairs (fun c => normalizeDigest (s.registryDigest c)) s.candidates := by
  ext pair
  rw [listed_pins]
  constructor
  · intro ⟨u,hu,hs,hp⟩
    obtain ⟨c,hc,rfl⟩ := List.mem_map.mp hu
    exact ⟨c,hc,mem_listedPin_services.mp hs,hp⟩
  · intro ⟨c,hc,hs,hp⟩
    exact ⟨listedPin s c,List.mem_map_of_mem hc,mem_listedPin_services.mpr hs,hp⟩

/-- A stack of the plan gets a pin for each of its candidates, none is resolved anew. -/
theorem pinForCandidate_eq (hs : s ∈ plan) (resolve : DigestPinCandidate → Option Str)
    {c : DigestPinCandidate} (hc : c ∈ s.candidates) :
    Updater.pinForCandidate (digestPinUpdatesFromPlan plan) resolve c = .ok (handedPin plan c) := by
  have hu : listedPin s c ∈ s.digestPinUpdates := by
    rw [listed_pins]
    exact List.mem_map_of_mem hc
  obtain ⟨v,hv,hold,htag⟩ := exists_lastListed hs hu
  have hlast : lastListed plan c.key = some v := hv
  have hplanned := @plannedPin_fromPlan true plan c.key
  rw [hlast,Option.map_some,hold,htag] at hplanned
  unfold Updater.pinForCandidate
  rw [show (c.oldImage,c.resolvedTag) = c.key from rfl,hplanned]
  simp [handedPin,hlast,digestPinUpdateFromValues,listedPin]

theorem digestPinUpdates_handed (hs : s ∈ plan) {resolve : DigestPinCandidate → Option Str}
    (cache : Updater.PinCache (digestPinUpdatesFromPlan plan) resolve) :
    (Updater.digestPinUpdates true cache s.matched).1 = .ok (s.candidates.map (handedPin plan)) := by
  rw [digestPinUpdates_eq cache s.matched (s.approved rfl)]
  exact mapM_ok fun c hc => pinForCandidate_eq hs resolve hc

theorem pinPairs_handed :
    pinPairs (s.candidates.map (handedPin plan)) =
      candidatePairs (fun c => (handedPin plan c).plannedDigest) s.candidates := by
  ext pair
  constructor
  · intro ⟨u,hu,hs,hp⟩
    obtain ⟨c,hc,rfl⟩ := List.mem_map.mp hu
    exact ⟨c,hc,hs,hp⟩
  · intro ⟨c,hc,hs,hp⟩
    exact ⟨handedPin plan c,List.mem_map_of_mem hc,hs,hp⟩

theorem pinsAgree_iff (hs : s ∈ plan) :
    PinsAgree plan s ↔ ∀ c ∈ s.candidates, c.services ≠ [] →
      (handedPin plan c).plannedDigest = normalizeDigest (s.registryDigest c) := by
  have hlast : ∀ c ∈ s.candidates, ∃ v, lastListed plan c.key = some v := by
    intro c hc
    have hu : listedPin s c ∈ s.digestPinUpdates := by
      rw [listed_pins]
      exact List.mem_map_of_mem hc
    obtain ⟨v,hv,-,-⟩ := exists_lastListed hs hu
    exact ⟨v,hv⟩
  constructor
  · intro h c hc hne
    obtain ⟨v,hv⟩ := hlast c hc
    obtain ⟨service,hservice⟩ := List.exists_mem_of_ne_nil _ hne
    have hu : listedPin s c ∈ s.digestPinUpdates := by
      rw [listed_pins]
      exact List.mem_map_of_mem hc
    have hv' := h (listedPin s c) hu (List.ne_nil_of_mem (mem_listedPin_services.mpr hservice)) v hv
    simpa [handedPin,hv,digestPinUpdateFromValues,listedPin] using hv'
  · intro h u hu hne v hv
    rw [listed_pins] at hu
    obtain ⟨c,hc,rfl⟩ := List.mem_map.mp hu
    obtain ⟨service,hservice⟩ := List.exists_mem_of_ne_nil _ hne
    have hv' := h c hc (List.ne_nil_of_mem (mem_listedPin_services.mp hservice))
    have hkey : lastListed plan c.key = some v := hv
    simpa [handedPin,hkey,digestPinUpdateFromValues,listedPin] using hv'

theorem pins_survive_iff (hs : s ∈ plan) {resolve : DigestPinCandidate → Option Str}
    (cache : Updater.PinCache (digestPinUpdatesFromPlan plan) resolve) :
    (∃ pins, (Updater.digestPinUpdates true cache s.matched).1 = .ok pins ∧
      pinPairs pins = pinPairs s.digestPinUpdates) ↔ PinsAgree plan s := by
  rw [pinsAgree_iff hs,← candidatePairs_inj (nodup_candidates (s.approved rfl)),← pinPairs_handed,
    ← pinPairs_listed,digestPinUpdates_handed hs]
  simp

end

/-! Unpins -/

section
variable {pinning : Bool} {plan : DigestPlan pinning} {s : PlanStack pinning}

/-- An approved update narrowed to the services a stack matched. -/
def narrowed (matched : List Match) (update : DigestUnpinUpdate) : Option DigestUnpinUpdate :=
  let services := Updater.unpinServicesOf matched update
  if services = [] then none else some { update with services }

theorem takeUnpin_eq (matched : List Match) (state : List DigestUnpinUpdate × List UnpinKey)
    (update : DigestUnpinUpdate) :
    Updater.takeUnpin matched state update = match narrowed matched update with
      | none => state
      | some u => if u.key ∈ state.2 then state else (state.1 ++ [u],u.key :: state.2) := by
  unfold Updater.takeUnpin narrowed
  dsimp only
  split <;> rfl

theorem foldl_takeUnpin (matched : List Match) (state : List DigestUnpinUpdate × List UnpinKey)
    (updates : List DigestUnpinUpdate) :
    (updates.foldl (Updater.takeUnpin matched) state).1 =
      state.1 ++ freshBy DigestUnpinUpdate.key state.2 (updates.filterMap (narrowed matched)) := by
  induction updates generalizing state with
  | nil => simp [freshBy]
  | cons update updates ih =>
    rw [List.foldl_cons,ih,takeUnpin_eq]
    cases hu : narrowed matched update with
    | none => rw [List.filterMap_cons_none hu]
    | some u =>
      rw [List.filterMap_cons_some hu,freshBy]
      by_cases hk : u.key ∈ state.2
      · simp [hk]
      · have hseen : freshBy DigestUnpinUpdate.key (u.key :: state.2) (updates.filterMap (narrowed matched)) =
            freshBy DigestUnpinUpdate.key (state.2 ++ [u.key]) (updates.filterMap (narrowed matched)) :=
          freshBy_congr fun x _ => by simp [or_comm]
        simp [hk,hseen]

def handedUnpin (rules : TagRules) (v : DigestUnpinUpdate) : DigestUnpinUpdate :=
  digestUnpinUpdateFromValues rules v.oldImage v.resolvedTag v.targetDigest v.services

theorem mem_unpinServicesOf {rules : TagRules} {matched : List Match} {v : DigestUnpinUpdate} {service : Str} :
    service ∈ Updater.unpinServicesOf matched (handedUnpin rules v) ↔
      MatchedService matched v.oldImage v.resolvedTag service ∧ service ∈ v.services := by
  rw [Updater.unpinServicesOf,mem_sortedSet]
  simp only [List.mem_map,List.mem_filter,handedUnpin,digestUnpinUpdateFromValues,MatchedService,
    Bool.and_eq_true,List.contains_iff_mem,List.mem_insertionSort]
  constructor
  · rintro ⟨m,⟨hm,⟨hi,ht⟩,hv⟩,rfl⟩
    exact ⟨⟨m,hm,of_decide_eq_true hi,of_decide_eq_true ht,rfl⟩,hv⟩
  · rintro ⟨⟨m,hm,hi,ht,rfl⟩,hv⟩
    exact ⟨m,⟨hm,⟨decide_eq_true hi,decide_eq_true ht⟩,hv⟩,rfl⟩

theorem narrowed_eq_some {rules : TagRules} {matched : List Match} {v r : DigestUnpinUpdate} :
    narrowed matched (handedUnpin rules v) = some r ↔
      Updater.unpinServicesOf matched (handedUnpin rules v) ≠ [] ∧
        r = { handedUnpin rules v with services := Updater.unpinServicesOf matched (handedUnpin rules v) } := by
  unfold narrowed
  dsimp only
  split
  · simp_all
  · rename_i h
    simp [h,eq_comm]

theorem shares_iff {rules : TagRules} {v : DigestUnpinUpdate} :
    Shares s v ↔ Updater.unpinServicesOf s.matched (handedUnpin rules v) ≠ [] := by
  constructor
  · intro ⟨service,hv,hm⟩
    exact List.ne_nil_of_mem (mem_unpinServicesOf.mpr ⟨hm,hv⟩)
  · intro h
    obtain ⟨service,hs⟩ := List.exists_mem_of_ne_nil _ h
    obtain ⟨hm,hv⟩ := mem_unpinServicesOf.mp hs
    exact ⟨service,hv,hm⟩

/-- What the updater computes is what the first sharing unpins name. -/
theorem mem_unpinPairs_handed (rules : TagRules) (pair : DigestPair) :
    pair ∈ unpinPairs (Updater.digestUnpinUpdates (digestUnpinUpdatesFromPlan rules plan) s.matched) ↔
      ∃ v, FirstSharing plan s v ∧ MatchedService s.matched v.oldImage v.resolvedTag pair.1 ∧
        pair.1 ∈ v.services ∧ pair.2 = handedKey v := by
  have hkey : ∀ v, (handedUnpin rules v).key = handedKey v := fun _ => rfl
  have hmem : ∀ r, r ∈ Updater.digestUnpinUpdates (digestUnpinUpdatesFromPlan rules plan) s.matched ↔
      ∃ v, FirstSharing plan s v ∧
        r = { handedUnpin rules v with services := Updater.unpinServicesOf s.matched (handedUnpin rules v) } := by
    intro r
    rw [Updater.digestUnpinUpdates,foldl_takeUnpin,List.nil_append,digestUnpinUpdatesFromPlan,
      List.filterMap_map,mem_freshBy_filterMap]
    constructor
    · intro ⟨before,v,after,hplan,hv,_,hfirst⟩
      obtain ⟨hne,rfl⟩ := narrowed_eq_some.mp hv
      refine ⟨v,⟨before,after,hplan,shares_iff.mpr hne,?_⟩,rfl⟩
      intro w hw hk hshares
      exact hfirst w hw _ (narrowed_eq_some.mpr ⟨shares_iff.mp hshares,rfl⟩) hk
    · intro ⟨v,⟨before,after,hplan,hshares,hfirst⟩,hr⟩
      refine ⟨before,v,after,hplan,narrowed_eq_some.mpr ⟨shares_iff.mp hshares,hr⟩,by simp,?_⟩
      intro w hw z hz hk
      obtain ⟨hne,rfl⟩ := narrowed_eq_some.mp hz
      rw [hr] at hk
      exact hfirst w hw hk (shares_iff.mpr hne)
  constructor
  · intro ⟨r,hr,hs,hp⟩
    obtain ⟨v,hfirst,rfl⟩ := (hmem r).mp hr
    obtain ⟨hm,hv⟩ := mem_unpinServicesOf.mp hs
    exact ⟨v,hfirst,hm,hv,hp⟩
  · intro ⟨v,hfirst,hm,hv,hp⟩
    exact ⟨_,(hmem _).mpr ⟨v,hfirst,rfl⟩,mem_unpinServicesOf.mpr ⟨hm,hv⟩,hp⟩

theorem mem_unpinPairs_listed {pair : DigestPair} :
    pair ∈ unpinPairs s.digestUnpinUpdates ↔ ListsUnpin s pair.2 pair.1 := by
  constructor
  · intro ⟨u,hu,hs,hp⟩
    exact ⟨u,hu,hp.symm,hs⟩
  · intro ⟨u,hu,hp,hs⟩
    exact ⟨u,hu,hs,hp.symm⟩

/-- Of each key there is only one first unpin. -/
theorem FirstSharing.unique {v w : DigestUnpinUpdate} (hv : FirstSharing plan s v) (hw : FirstSharing plan s w)
    (hk : handedKey v = handedKey w) : v = w := by
  obtain ⟨bv,av,hpv,hsv,hfv⟩ := hv
  obtain ⟨bw,aw,hpw,hsw,hfw⟩ := hw
  have he := hpv.symm.trans hpw
  rcases List.append_eq_append_iff.mp he with ⟨mid,hb,ha⟩ | ⟨mid,hb,ha⟩
  · cases mid with
    | nil => exact (List.cons.inj ha).1
    | cons x mid =>
      obtain ⟨rfl,-⟩ := List.cons.inj ha
      exact absurd hsv (hfw v (by simp [hb]) hk)
  · cases mid with
    | nil => exact (List.cons.inj ha).1.symm
    | cons x mid =>
      obtain ⟨rfl,-⟩ := List.cons.inj ha
      exact absurd hsw (hfv w (by simp [hb]) hk.symm)

theorem exists_first {α : Type} {p : α → Prop} {xs : List α} (h : ∃ x ∈ xs, p x) :
    ∃ before x after, xs = before ++ x :: after ∧ p x ∧ ∀ w ∈ before, ¬p w := by
  induction xs with
  | nil => simp at h
  | cons x xs ih =>
    by_cases hx : p x
    · exact ⟨[],x,xs,rfl,hx,by simp⟩
    · have hrest : ∃ y ∈ xs, p y := by simpa [hx] using h
      obtain ⟨before,y,after,rfl,hy,hb⟩ := ih hrest
      exact ⟨x :: before,y,after,rfl,hy,by simpa [hx] using hb⟩

theorem exists_firstSharing {v : DigestUnpinUpdate} (hv : v ∈ plan.flatMap (·.digestUnpinUpdates))
    (hs : Shares s v) : ∃ w, FirstSharing plan s w ∧ handedKey w = handedKey v := by
  obtain ⟨before,w,after,hplan,⟨hk,hw⟩,hb⟩ :=
    exists_first (p := fun w => handedKey w = handedKey v ∧ Shares s w) ⟨v,hv,rfl,hs⟩
  exact ⟨w,⟨before,after,hplan,hw,fun x hx hkx hsx => hb x hx ⟨hkx.trans hk,hsx⟩⟩,hk⟩

theorem unpins_survive_iff (rules : TagRules) :
    unpinPairs (Updater.digestUnpinUpdates (digestUnpinUpdatesFromPlan rules plan) s.matched) =
      unpinPairs s.digestUnpinUpdates ↔ UnpinsAgree plan s := by
  rw [Set.ext_iff]
  simp only [mem_unpinPairs_handed,mem_unpinPairs_listed]
  constructor
  · intro h
    constructor
    · intro key service hl
      obtain ⟨v,-,hm,-,hk⟩ := (h (service,key)).mpr hl
      have hkey : key = handedKey v := hk
      rw [hkey]
      exact hm
    · intro v hv service hm
      constructor
      · intro hs
        exact (h (service,handedKey v)).mp ⟨v,hv,hm,hs,rfl⟩
      · intro hl
        obtain ⟨w,hw,-,hs,hk⟩ := (h (service,handedKey v)).mpr hl
        rw [hv.unique hw hk]
        exact hs
    · intro u hu hne
      obtain ⟨service,hs⟩ := List.exists_mem_of_ne_nil _ hne
      obtain ⟨v,⟨before,after,hplan,hshares,-⟩,-,-,hk⟩ := (h (service,u.key)).mpr ⟨u,hu,rfl,hs⟩
      exact ⟨v,by simp [hplan],hk.symm,hshares⟩
  · intro h pair
    constructor
    · intro ⟨v,hv,hm,hs,hp⟩
      rw [hp]
      exact (h.first v hv pair.1 hm).mp hs
    · intro hl
      have hm := h.matched pair.2 pair.1 hl
      obtain ⟨u,hu,hk,hs⟩ := hl
      obtain ⟨v,hv,hvk,hshares⟩ := h.handed u hu (List.ne_nil_of_mem hs)
      obtain ⟨w,hw,hwk⟩ := exists_firstSharing hv hshares
      have hkey : pair.2 = handedKey w := hk.symm.trans (hvk.symm.trans hwk.symm)
      rw [hkey] at hm
      exact ⟨w,hw,hm,(h.first w hw pair.1 hm).mpr ⟨u,hu,hk.trans hkey,hs⟩,hkey⟩

/-- The updates survive the hand-over exactly when the entries of other stacks that are taken for
those of this one agree with them. -/
theorem survives_iff (hs : s ∈ plan) (rules : TagRules) {resolve : DigestPinCandidate → Option Str}
    (cache : Updater.PinCache (digestPinUpdatesFromPlan plan) resolve) :
    Survives plan s rules cache ↔ PinsAgree plan s ∧ UnpinsAgree plan s := by
  unfold Survives
  rw [unpins_survive_iff]
  apply and_congr_left'
  cases pinning with
  | true => exact pins_survive_iff hs cache
  | false =>
    have hno : s.digestPinUpdates = [] := rfl
    constructor
    · intro _ u hu
      rw [hno] at hu
      cases hu
    · intro _
      exact ⟨[],rfl,by rw [hno]⟩

end

/-! Recovery -/

section
variable {rules : TagRules} {recovers : ComposeStack → ServiceImage → Str → Bool} {stack : ComposeStack}

/-- Whatever service an update names is matched. -/
def Covers (state : List Match × List DigestUnpinUpdate) : Prop :=
  ∀ u ∈ state.2, ∀ service ∈ u.services, MatchedService state.1 u.oldImage u.resolvedTag service

theorem mergedUnpin_services {updates : List DigestUnpinUpdate} {key : UnpinKey} {u : DigestUnpinUpdate}
    {service : Str} (hu : mergedUnpin rules updates key = some u) (hs : service ∈ u.services) :
    ∃ v ∈ updates, v.oldImage = u.oldImage ∧ v.resolvedTag = u.resolvedTag ∧ service ∈ v.services := by
  have hkey : ∀ v ∈ updates.filter (·.key = key), v ∈ updates ∧ v.key = key := fun v hv => by simpa using hv
  unfold mergedUnpin at hu
  split at hu
  · cases hu
  · rename_i v hgroup
    obtain rfl := Option.some.inj hu
    exact ⟨v,(hkey v (by simp [hgroup])).1,rfl,rfl,hs⟩
  · obtain rfl := Option.some.inj hu
    rw [digestUnpinUpdateFromValues,List.mem_insertionSort,mem_sortedSet,List.mem_flatMap] at hs
    obtain ⟨v,hv,hs⟩ := hs
    obtain ⟨hmem,rfl⟩ := hkey v hv
    exact ⟨v,hmem,rfl,rfl,hs⟩

theorem unpinMatchesOf_covers {target : WudTarget} {u : DigestUnpinUpdate} {service : Str}
    (hu : u ∈ digestUnpinUpdatesForTarget rules recovers target stack) (hs : service ∈ u.services) :
    MatchedService (unpinMatchesOf stack target u) u.oldImage u.resolvedTag service := by
  obtain ⟨image,-,himage⟩ := List.mem_filterMap.mp hu
  dsimp only at himage
  split at himage
  · cases himage
  · obtain rfl := Option.some.inj himage
    exact ⟨_,List.mem_map_of_mem hs,rfl,rfl,rfl⟩

theorem recoverTarget_covers {state : List Match × List DigestUnpinUpdate} (h : Covers state)
    (target : WudTarget) : Covers (recoverTarget rules recovers stack state target) := by
  have hold : ∀ u ∈ state.2, ∀ service ∈ u.services,
      MatchedService (recoverTarget rules recovers stack state target).1 u.oldImage u.resolvedTag service := by
    intro u hu service hs
    obtain ⟨m,hm,hi,ht,hv⟩ := h u hu service hs
    refine ⟨m,?_,hi,ht,hv⟩
    rw [recoverTarget,foldl_appendIfNew]
    exact List.mem_append_left _ hm
  intro u hu service hs
  by_cases hno : digestUnpinUpdatesForTarget rules recovers target stack = []
  · rw [recoverTarget,if_pos hno] at hu
    exact hold u hu service hs
  · rw [recoverTarget,if_neg hno] at hu
    obtain ⟨key,-,hkey⟩ := List.mem_filterMap.mp hu
    obtain ⟨v,hv,ho,ht,hvs⟩ := mergedUnpin_services hkey hs
    rw [← ho,← ht]
    rcases List.mem_append.mp hv with hv | hv
    · exact hold v hv service hvs
    · obtain ⟨m,hm,hi,hr,hms⟩ := unpinMatchesOf_covers hv hvs
      have hnew := List.mem_flatMap.mpr ⟨v,hv,hm⟩
      obtain ⟨m',hm',hmk⟩ := @exists_foldl_appendIfNew _ _ _ Match.key state.1 _ m hnew
      simp only [Match.key,Prod.mk.injEq] at hmk
      exact ⟨m',hm',hmk.2.2.2.1.trans hi,hmk.2.2.1.trans hr,hmk.2.2.2.2.trans hms⟩

/-- What the plan recovers for a stack it also matches. -/
theorem recoverDigestUnpinMatches_covers (found : List Match) (unmatched : List WudTarget) :
    Covers (recoverDigestUnpinMatches rules recovers stack found unmatched) := by
  have hrun : ∀ targets : List WudTarget, ∀ state, Covers state →
      Covers (targets.foldl (recoverTarget rules recovers stack) state) := by
    intro targets
    induction targets with
    | nil => exact fun _ h => h
    | cons target targets ih => exact fun state h => ih _ (recoverTarget_covers h target)
  exact hrun _ _ fun u hu => by cases hu

end

section
/-- A stack whose services all run one image, pinned to a digest. -/
def nginxStack (index : ℕ) (name : Str) (services : List Str) : ComposeStack :=
  { index, directory := "/srv/".toList ++ name, file := "compose.yaml".toList, name
    images := ["nginx@sha256:aa".toList]
    serviceImages := services.map fun service => ⟨service,"nginx@sha256:aa".toList,[],[]⟩ }

/-- The plan of a stack for a line it recovers the tag of. -/
def recoveredPlan (stack : ComposeStack) : PlanStack false :=
  let recovered := recoverDigestUnpinMatches ⟨id⟩ (fun _ _ _ => true) stack [] [digestTarget]
  { stack, matched := recovered.1, candidates := [], approved := fun h => by cases h
    registryDigest := fun c => c.plannedDigest, unpins := recovered.2 }

def oneService : PlanStack false := recoveredPlan (nginxStack 1 "a".toList ["web".toList])

def twoServices : PlanStack false := recoveredPlan (nginxStack 2 "b".toList ["db".toList,"web".toList])

def noCache (plan : List DigestPinUpdate) : Updater.PinCache plan fun _ => none := ⟨[],by simp⟩

/-- The first stack's unpin is taken for the second stack too, which loses a service. -/
theorem second_stack_loses_service :
    ¬∀ (pinning : Bool) (plan : DigestPlan pinning) (s : PlanStack pinning), s ∈ plan → ∀ rules resolve,
      ∀ cache : Updater.PinCache (digestPinUpdatesFromPlan plan) resolve, Survives plan s rules cache := by
  intro h
  have hpairs := (h false [oneService,twoServices] twoServices (by simp) ⟨id⟩ _ (noCache _)).2
  have hlisted : ("db".toList,"nginx@sha256:aa".toList,"1".toList,"sha256:bb".toList) ∈
      unpinPairs twoServices.digestUnpinUpdates := by
    have hunpins : twoServices.digestUnpinUpdates.map (fun u => (u.key,u.services)) =
        [(("nginx@sha256:aa".toList,"1".toList,"sha256:bb".toList),["db".toList,"web".toList])] := by decide
    obtain ⟨u,hu,he⟩ := List.mem_map.mp (hunpins ▸ List.mem_singleton_self _)
    obtain ⟨hk,hs⟩ := Prod.mk.inj he
    exact ⟨u,hu,by simp [hs],hk.symm⟩
  rw [← hpairs] at hlisted
  obtain ⟨u,hu,hs,-⟩ := hlisted
  have hservices : (Updater.digestUnpinUpdates (digestUnpinUpdatesFromPlan ⟨id⟩ [oneService,twoServices])
      twoServices.matched).flatMap (·.services) = ["web".toList] := by decide
  have hmem := List.mem_flatMap_of_mem hu hs
  rw [hservices] at hmem
  exact absurd hmem (by decide)

/-- Alone, the second stack keeps both. -/
theorem lone_stack_survives_iff :
    Survives [twoServices] twoServices ⟨id⟩ (noCache _) ↔
      PinsAgree [twoServices] twoServices ∧ UnpinsAgree [twoServices] twoServices :=
  survives_iff (by simp) ⟨id⟩ (noCache _)

end
end Wudup

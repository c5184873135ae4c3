import Wudup.Library.Traverse
import Wudup.WudObservations

/-! Where a kept observation comes from: payloads that are reconciled one after the other, each with what the one before
it left. -/
namespace Wudup
open Library

/-! What payloads report -/

def Reports (rules : ObservationRules) (payload : List Json) (o : WudContainerObservation) : Prop :=
  ∃ raw ∈ payload, parseContainerObservation rules raw = some (some o)

def WudContainerObservation.healthy (o : WudContainerObservation) : Bool := !o.degraded && !o.unsupported

def healthyItem (rules : ObservationRules) (raw : Json) : Bool :=
  ((parseContainerObservation rules raw).getD none).any (·.healthy)

/-- An update that a healthy observation found. -/
structure WudContainerObservation.Updates (o : WudContainerObservation) (identity : WudContainerIdentity) : Prop where
  healthy : o.healthy = true
  available : o.updateAvailable = some true
  identity_eq : o.container.identity = some identity

/-- A container is remembered as itself, or without a digest as the only one that differs from it in the digest. -/
def RememberedAs (container : WudApiContainer) (previous : PendingObservations) (identity : WudContainerIdentity) :
    Prop :=
  ∃ own, container.identity = some own ∧
    (identity = own ∨ container.localDigest = [] ∧ container.localImageId ≠ [] ∧ identity.sameImage own = true ∧
      ∀ entry ∈ previous, entry.1.sameImage own = true → entry.1 = identity)

theorem previousObservation_spec {container : WudApiContainer} {previous : PendingObservations}
    {identity : WudContainerIdentity} {observation : PendingObservation}
    (h : previousObservationForContainer container previous = some (identity,observation)) :
    (identity,observation) ∈ previous ∧ RememberedAs container previous identity := by
  unfold previousObservationForContainer at h
  split at h
  · cases h
  · rename_i own hown
    split at h
    · rename_i exact hfound
      cases h
      obtain ⟨hmem,hkey⟩ := Keyed.mem_of_find hfound
      exact ⟨hmem,own,hown,.inl hkey⟩
    · split at h
      · cases h
      · rename_i hblank
        split at h
        · rename_i entry hfilter
          cases h
          have hmem : (identity,observation) ∈ previous.filter fun entry => entry.1.sameImage own := by
            rw [hfilter]
            exact List.mem_singleton.mpr rfl
          obtain ⟨hprevious,hsame⟩ := List.mem_filter.mp hmem
          simp only [Bool.or_eq_true,decide_eq_true_eq,not_or,not_not] at hblank
          refine ⟨hprevious,own,hown,.inr ⟨hblank.1,hblank.2,hsame,fun other hother hos => ?_⟩⟩
          have honly : other ∈ previous.filter fun entry => entry.1.sameImage own := List.mem_filter.mpr ⟨hother,hos⟩
          rw [hfilter] at honly
          rw [List.mem_singleton.mp honly]
        · cases h

/-! One payload -/

section
variable (rules : ObservationRules) (payload : List Json) (previous : PendingObservations) (observedAt : Str)

/-- What one payload may write under an identity. -/
inductive WrittenBy : WudContainerIdentity → PendingObservation → Prop
  | updated {o : WudContainerObservation} {identity : WudContainerIdentity} : Reports rules payload o →
      o.Updates identity → WrittenBy identity ⟨o.container,observedAt⟩
  | retained {o : WudContainerObservation} {identity : WudContainerIdentity} {observation : PendingObservation} :
      Reports rules payload o → o.healthy = false →
      previousObservationForContainer o.container previous = some (identity,observation) →
      WrittenBy identity ⟨retainedContainer observation.container o.container,observation.observedAt⟩

/-- After some items of the payload. -/
structure Accounts (items : List (Json × Option WudContainerObservation)) (r : Reconciled) : Prop where
  entries : ∀ entry ∈ r.pendingObservations, WrittenBy rules payload previous observedAt entry.1 entry.2
  containers : ∀ c ∈ r.containers, (∃ o, Reports rules payload o ∧ c = o.container) ∨
    ∃ o identity observation, Reports rules payload o ∧ o.healthy = false ∧
      previousObservationForContainer o.container previous = some (identity,observation) ∧
      c = retainedContainer observation.container o.container
  retained_le : r.retainedUpdateCount ≤ r.degradedContainerCount
  counted : items.countP (·.2.any (·.healthy)) + r.degradedContainerCount + r.unsupportedContainerCount = items.length

variable {rules payload previous observedAt} {items : List (Json × Option WudContainerObservation)} {r t : Reconciled}
  {raw : Json} {o : WudContainerObservation}

theorem accounts_start : Accounts rules payload previous observedAt [] {} := ⟨by simp,by simp,le_refl _,rfl⟩

theorem mem_set_pending {entry new : WudContainerIdentity × PendingObservation} {pending : PendingObservations}
    (h : entry ∈ Keyed.set (·.1) new pending) : entry = new ∨ entry ∈ pending := Keyed.eq_or_mem_of_mem_set h

/-- An item that is no observation. -/
theorem Accounts.skip (h : Accounts rules payload previous observedAt items r) :
    Accounts rules payload previous observedAt (items ++ [(raw,none)])
      { r with degradedContainerCount := r.degradedContainerCount + 1 } := by
  refine ⟨h.entries,h.containers,Nat.le_succ_of_le h.retained_le,?_⟩
  have hcounted := h.counted
  simp only [List.countP_append,List.length_append,List.countP_singleton,Option.any_none,List.length_singleton]
  simp only [Bool.false_eq_true,if_false]
  omega

theorem Accounts.degraded (h : Accounts rules payload previous observedAt items r) (hreports : Reports rules payload o)
    (hfailed : o.healthy = false) : Accounts rules payload previous observedAt (items ++ [(raw,some o)])
      (r.reconcileDegradedObservation o previous) := by
  have hcounted := h.counted
  have hretained := h.retained_le
  have hitem : (items ++ [(raw,some o)]).countP (·.2.any (·.healthy)) = items.countP (·.2.any (·.healthy)) := by
    simp [List.countP_append,hfailed]
  unfold Reconciled.reconcileDegradedObservation
  split
  · rename_i identity observation hfound
    refine ⟨fun entry hentry => ?_,fun c hc => ?_,Nat.succ_le_succ hretained,?_⟩
    · obtain rfl | hentry := mem_set_pending hentry
      · exact .retained hreports hfailed hfound
      · exact h.entries entry hentry
    · obtain hc | hc := List.mem_append.mp hc
      · exact h.containers c hc
      · exact .inr ⟨o,identity,observation,hreports,hfailed,hfound,List.mem_singleton.mp hc⟩
    · rw [hitem,List.length_append,List.length_singleton]
      dsimp only
      omega
  · split
    · refine ⟨h.entries,h.containers,hretained,?_⟩
      rw [hitem,List.length_append,List.length_singleton]
      dsimp only
      omega
    · refine ⟨h.entries,h.containers,Nat.le_succ_of_le hretained,?_⟩
      rw [hitem,List.length_append,List.length_singleton]
      dsimp only
      omega

theorem Accounts.healthy (h : Accounts rules payload previous observedAt items r) (hreports : Reports rules payload o)
    (hhealthy : o.healthy = true) {fields : Details} :
    Accounts rules payload previous observedAt (items ++ [(raw,some o)])
      (r.recordHealthyObservation fields o observedAt) := by
  have hcounted := h.counted
  have hitem : (items ++ [(raw,some o)]).countP (·.2.any (·.healthy)) = items.countP (·.2.any (·.healthy)) + 1 := by
    simp [List.countP_append,hhealthy]
  have hcount : (items ++ [(raw,some o)]).countP (·.2.any (·.healthy)) + r.degradedContainerCount +
      r.unsupportedContainerCount = (items ++ [(raw,some o)]).length := by
    rw [hitem,List.length_append,List.length_singleton]
    omega
  unfold Reconciled.recordHealthyObservation
  split
  · rename_i havailable
    unfold Reconciled.appendPendingObservation
    refine ⟨fun entry hentry => ?_,fun c hc => ?_,h.retained_le,hcount⟩
    · dsimp only at hentry
      split at hentry
      · rename_i identity hidentity
        obtain rfl | hentry := mem_set_pending hentry
        · exact .updated hreports ⟨hhealthy,havailable,hidentity⟩
        · exact h.entries entry hentry
      · exact h.entries entry hentry
    · obtain hc | hc := List.mem_append.mp hc
      · exact h.containers c hc
      · exact .inl ⟨o,hreports,List.mem_singleton.mp hc⟩
  · split
    · exact ⟨h.entries,h.containers,h.retained_le,hcount⟩
    · exact ⟨h.entries,h.containers,h.retained_le,hcount⟩

theorem Accounts.inventory (h : Accounts rules payload previous observedAt items r) (container : WudApiContainer) :
    Accounts rules payload previous observedAt items
      { r with inventoryContainers := r.inventoryContainers ++ [container] } :=
  ⟨h.entries,h.containers,h.retained_le,h.counted⟩

theorem Accounts.retryable (h : Accounts rules payload previous observedAt items r) :
    Accounts rules payload previous observedAt items (r.recordRetryableDegradedContainer o) := by
  unfold Reconciled.recordRetryableDegradedContainer
  split
  · exact h
  · exact ⟨h.entries,h.containers,h.retained_le,h.counted⟩

theorem Accounts.item {item : Json × Option WudContainerObservation}
    (h : Accounts rules payload previous observedAt items r)
    (hitem : ∀ o, item.2 = some o → Reports rules payload o) :
    Accounts rules payload previous observedAt (items ++ [item]) (r.reconcileItem previous observedAt item) := by
  obtain ⟨raw,observation⟩ := item
  cases observation with
  | none => exact h.skip
  | some o =>
    have hreports := hitem o rfl
    have hbegun := (h.inventory { o.container with
      updateAvailable := if o.degraded || o.unsupported then none else o.updateAvailable }).retryable (o := o)
    unfold Reconciled.reconcileItem
    dsimp only
    split
    · rename_i hfailed
      exact hbegun.degraded hreports (by
        rw [WudContainerObservation.healthy]
        simp only [Bool.or_eq_true] at hfailed
        obtain hu | hd := hfailed
        · simp [hu]
        · simp [hd])
    · rename_i hgood
      exact hbegun.healthy hreports (by
        simp only [Bool.or_eq_true,not_or,Bool.not_eq_true] at hgood
        simp [WudContainerObservation.healthy,hgood.1,hgood.2])

theorem Accounts.foldl {more : List (Json × Option WudContainerObservation)}
    (h : Accounts rules payload previous observedAt items r)
    (hmore : ∀ item ∈ more, ∀ o, item.2 = some o → Reports rules payload o) :
    Accounts rules payload previous observedAt (items ++ more)
      (more.foldl (Reconciled.reconcileItem previous observedAt) r) := by
  induction more generalizing items r with
  | nil => simpa using h
  | cons item more ih =>
    rw [List.foldl_cons,List.append_cons]
    exact ih (h.item (hmore item (by simp))) fun other hother => hmore other (List.mem_cons_of_mem _ hother)

end

/-! The whole payload -/

section
variable {rules : ObservationRules} {payload : List Json} {previous : PendingObservations} {observedAt : Str}
  {result : Reconciled}

theorem inspectItem_spec {raw : Json} {item : Json × Option WudContainerObservation}
    (h : inspectItem rules raw = some item) : item.1 = raw ∧ parseContainerObservation rules raw = some item.2 := by
  unfold inspectItem at h
  split at h
  · rename_i hparse _
    obtain ⟨_,-,rfl⟩ := Option.map_eq_some_iff.mp h
    exact ⟨rfl,hparse⟩
  · obtain ⟨observation,hparse,rfl⟩ := Option.map_eq_some_iff.mp h
    exact ⟨rfl,hparse⟩

theorem accounts_result (h : reconcileContainerObservations rules payload previous observedAt = some result) :
    ∃ items, payload.map (inspectItem rules) = items.map some ∧
      Accounts rules payload previous observedAt items result := by
  obtain ⟨items,hitems,rfl⟩ := Option.map_eq_some_iff.mp h
  refine ⟨items,mapM_eq_some.mp hitems,?_⟩
  have hreports : ∀ item ∈ items, ∀ o, item.2 = some o → Reports rules payload o := by
    intro item hitem o ho
    obtain ⟨raw,hraw,hinspect⟩ := (mem_of_mapM_eq_some hitems).mp hitem
    exact ⟨raw,hraw,ho ▸ (inspectItem_spec hinspect).2⟩
  have hfold : Accounts rules payload previous observedAt ([] ++ items)
      (items.foldl (Reconciled.reconcileItem previous observedAt) {}) := accounts_start.foldl hreports
  exact hfold

/-- Each item counts as healthy, degraded or unsupported. -/
theorem counted_result (h : reconcileContainerObservations rules payload previous observedAt = some result) :
    payload.countP (healthyItem rules) + result.degradedContainerCount + result.unsupportedContainerCount =
      payload.length := by
  obtain ⟨items,hitems,haccounts⟩ := accounts_result h
  have hlength : payload.length = items.length := by simpa using congrArg List.length hitems
  have hhealthy : payload.countP (healthyItem rules) = items.countP (·.2.any (·.healthy)) := by
    clear haccounts hlength h
    induction payload generalizing items with
    | nil =>
      cases items with
      | nil => rfl
      | cons item items => cases hitems
    | cons raw payload ih =>
      cases items with
      | nil => cases hitems
      | cons item items =>
        rw [List.map_cons,List.map_cons,List.cons.injEq] at hitems
        have hitem : healthyItem rules raw = item.2.any (·.healthy) := by
          rw [healthyItem,(inspectItem_spec hitems.1).2]
          rfl
        rw [List.countP_cons,List.countP_cons,ih items hitems.2,hitem]
  rw [hhealthy,hlength]
  exact haccounts.counted

theorem Reports.fresh {o : WudContainerObservation} (h : Reports rules payload o) :
    o.container.metadataStatus = .fresh := by
  obtain ⟨raw,-,hparse⟩ := h
  unfold parseContainerObservation at hparse
  split at hparse
  · cases hparse
  · obtain ⟨container,hcontainer,ho⟩ := Option.map_eq_some_iff.mp hparse
    obtain ⟨c,rfl,rfl⟩ := Option.map_eq_some_iff.mp ho
    obtain ⟨image,-,hc⟩ := Option.map_eq_some_iff.mp hcontainer
    split at hc
    · cases hc
    · cases hc
      rfl

end

/-! Runs -/

/-- A payload with what was remembered when it came. -/
structure ObservedCheck where
  payload : List Json
  observedAt : Str
  previous : PendingObservations

/-- The payloads that were reconciled, and what the last of them left. -/
structure ObservedRun where
  checks : List ObservedCheck := []
  cache : PendingObservations := []

section
variable (rules : ObservationRules)

/-- The next payload; one that stops the reconciliation leaves everything as it was. -/
def observe (run : ObservedRun) (sent : List Json × Str) : ObservedRun :=
  match reconcileContainerObservations rules sent.1 run.cache sent.2 with
  | none => run
  | some result => ⟨run.checks ++ [⟨sent.1,sent.2,run.cache⟩],result.pendingObservations⟩

def observeAll (sent : List (List Json × Str)) : ObservedRun := sent.foldl (observe rules) {}

/-- The check reports a degraded or unsupported container that is remembered under the identity. -/
def ObservedCheck.Retains (check : ObservedCheck) (identity : WudContainerIdentity) : Prop :=
  ∃ o, Reports rules check.payload o ∧ o.healthy = false ∧ RememberedAs o.container check.previous identity

/-- The same update, with what a container is called and how it fares at another time. -/
def SameUpdate (reported c : WudApiContainer) : Prop :=
  c = { reported with
    displayName := c.displayName
    status := c.status
    error := c.error
    labels := c.labels
    metadataStatus := c.metadataStatus }

/-- An update that a healthy observation of a check found under the identity; each later check retained it. -/
structure Origin (checks : List ObservedCheck) (identity : WudContainerIdentity) (observation : PendingObservation) :
    Prop where
  found : ∃ before check after o, checks = before ++ check :: after ∧ Reports rules check.payload o ∧
    o.Updates identity ∧ SameUpdate o.container observation.container ∧ observation.observedAt = check.observedAt ∧
    ∀ later ∈ after, later.Retains rules identity

variable {rules} {checks : List ObservedCheck} {check : ObservedCheck} {identity : WudContainerIdentity}
  {observation : PendingObservation}

theorem SameUpdate.retained {reported previous : WudApiContainer} (h : SameUpdate reported previous)
    (container : WudApiContainer) : SameUpdate reported (retainedContainer previous container) := by
  rw [SameUpdate] at h
  rw [SameUpdate,retainedContainer,h]

theorem Origin.retained (h : Origin rules checks identity observation) (container : WudApiContainer) :
    Origin rules checks identity ⟨retainedContainer observation.container container,observation.observedAt⟩ := by
  obtain ⟨before,first,after,o,hchecks,hreports,hupdates,hsame,htime,hafter⟩ := h.found
  exact ⟨before,first,after,o,hchecks,hreports,hupdates,hsame.retained container,htime,hafter⟩

theorem Origin.next (h : Origin rules checks identity observation) (hretains : check.Retains rules identity) :
    Origin rules (checks ++ [check]) identity observation := by
  obtain ⟨before,first,after,o,rfl,hreports,hupdates,hsame,htime,hafter⟩ := h.found
  refine ⟨before,first,after ++ [check],o,by simp,hreports,hupdates,hsame,htime,fun later hl => ?_⟩
  obtain hl | hl := List.mem_append.mp hl
  · exact hafter later hl
  · exact List.mem_singleton.mp hl ▸ hretains

/-- What is remembered comes from the payloads that were reconciled. -/
def ObservedRun.Sound (rules : ObservationRules) (run : ObservedRun) : Prop :=
  ∀ entry ∈ run.cache, Origin rules run.checks entry.1 entry.2

theorem ObservedRun.Sound.observe {run : ObservedRun} (h : run.Sound rules) (sent : List Json × Str) :
    (observe rules run sent).Sound rules := by
  unfold Wudup.observe
  split
  · exact h
  · rename_i result hresult
    obtain ⟨items,-,haccounts⟩ := accounts_result hresult
    rintro ⟨identity,observation⟩ hentry
    have hwritten : WrittenBy rules sent.1 run.cache sent.2 identity observation := haccounts.entries _ hentry
    cases hwritten with
    | updated hreports hupdates =>
      exact ⟨run.checks,_,[],_,rfl,hreports,hupdates,rfl,rfl,by simp⟩
    | retained hreports hfailed hfound =>
      obtain ⟨hmem,hremembered⟩ := previousObservation_spec hfound
      exact ((h _ hmem).retained _).next ⟨_,hreports,hfailed,hremembered⟩

theorem sound_observeAll (sent : List (List Json × Str)) : (observeAll rules sent).Sound rules := by
  have hfold (run : ObservedRun) (h : run.Sound rules) : (sent.foldl (observe rules) run).Sound rules := by
    induction sent generalizing run with
    | nil => exact h
    | cons first rest ih => exact ih _ (h.observe first)
  exact hfold {} fun entry hentry => absurd hentry List.not_mem_nil

/-- After any payloads from an empty cache: an update that a payload retains, shown or remembered, is of a container
that it reports as degraded or unsupported. It was found under that container's identity by a healthy observation, at
the time it carries, and each payload in between retained it too. The items are counted, each once. -/
theorem retention_honest (sent : List (List Json × Str)) {payload : List Json} {observedAt : Str} {result : Reconciled}
    (h : reconcileContainerObservations rules payload (observeAll rules sent).cache observedAt = some result) :
    (∀ c ∈ result.containers, c.metadataStatus = .retained → ∃ o identity time, Reports rules payload o ∧
      o.healthy = false ∧ RememberedAs o.container (observeAll rules sent).cache identity ∧
      Origin rules (observeAll rules sent).checks identity ⟨c,time⟩) ∧
    (∀ entry ∈ result.pendingObservations, entry.2.container.metadataStatus = .retained → ∃ o, Reports rules payload o ∧
      o.healthy = false ∧ RememberedAs o.container (observeAll rules sent).cache entry.1 ∧
      Origin rules (observeAll rules sent).checks entry.1 entry.2) ∧
    result.retainedUpdateCount ≤ result.degradedContainerCount ∧
    payload.countP (healthyItem rules) + result.degradedContainerCount + result.unsupportedContainerCount =
      payload.length := by
  obtain ⟨items,-,haccounts⟩ := accounts_result h
  have hsound := @sound_observeAll rules sent
  refine ⟨fun c hc hstatus => ?_,fun entry hentry hstatus => ?_,haccounts.retained_le,counted_result h⟩
  · obtain ⟨o,hreports,rfl⟩ | ⟨o,identity,observation,hreports,hfailed,hfound,rfl⟩ := haccounts.containers c hc
    · rw [hreports.fresh] at hstatus
      cases hstatus
    · obtain ⟨hmem,hremembered⟩ := previousObservation_spec hfound
      exact ⟨o,identity,_,hreports,hfailed,hremembered,(hsound _ hmem).retained _⟩
  · obtain ⟨identity,observation⟩ := entry
    have hwritten : WrittenBy rules payload (observeAll rules sent).cache observedAt identity observation :=
      haccounts.entries _ hentry
    cases hwritten with
    | updated hreports _ =>
      rw [hreports.fresh] at hstatus
      cases hstatus
    | retained hreports hfailed hfound =>
      obtain ⟨hmem,hremembered⟩ := previousObservation_spec hfound
      exact ⟨_,hreports,hfailed,hremembered,(hsound _ hmem).retained _⟩

end

namespace Example

def observedRules : ObservationRules where
  case := plainCase
  urlsplit := fun _ => .ok ⟨"http".toList,"wud:3000".toList,[]⟩
  sanitizeDetail := id

/-- What is reported of one container. -/
def observedItem (result : Details) (updateAvailable : Bool) : Json :=
  .object [("id".toList,.string "c1".toList),("name".toList,.string "app".toList),
    ("image".toList,.object [("name".toList,.string "app".toList),
      ("tag".toList,.object [("value".toList,.string "1".toList)])]),
    ("result".toList,.object result),("updateAvailable".toList,.bool updateAvailable)]

def updateItem : Json := observedItem [("tag".toList,.string "2".toList)] true
def failedItem : Json := observedItem [] false
def currentItem : Json := observedItem [("tag".toList,.string "1".toList)] false

def observedIdentity : WudContainerIdentity where
  watcher := []
  id := "c1".toList
  name := "app".toList
  image := "app:1".toList
  localImageId := []
  localDigest := []
  platform := []

/-- What is made of a failed check after the given payloads. -/
def failedResult (sent : List (List Json × Str)) : Reconciled :=
  (reconcileContainerObservations observedRules [failedItem] (observeAll observedRules sent).cache
    "t3".toList).getD {}

theorem failed_check_retains :
    (failedResult [([updateItem],"t1".toList)]).containers.map (·.metadataStatus) = [.retained] ∧
    ∀ entry ∈ (failedResult [([updateItem],"t1".toList)]).pendingObservations,
      entry.2.container.metadataStatus = .retained →
      ∃ o, Reports observedRules [failedItem] o ∧ o.healthy = false ∧
        RememberedAs o.container (observeAll observedRules [([updateItem],"t1".toList)]).cache entry.1 ∧
        Origin observedRules (observeAll observedRules [([updateItem],"t1".toList)]).checks entry.1 entry.2 := by
  have hresult : reconcileContainerObservations observedRules [failedItem]
      (observeAll observedRules [([updateItem],"t1".toList)]).cache "t3".toList =
        some (failedResult [([updateItem],"t1".toList)]) := by decide +kernel
  exact ⟨by decide +kernel,(retention_honest [([updateItem],"t1".toList)] hresult).2.1⟩

/-- A payload that reports a container twice, as degraded and as up to date, keeps the update found before. -/
theorem healthy_beside_failed :
    (∃ o, Reports observedRules [failedItem,currentItem] o ∧ o.healthy = true ∧ o.updateAvailable = some false ∧
      o.container.identity = some observedIdentity) ∧
    (failedResult [([updateItem],"t1".toList),([failedItem,currentItem],"t2".toList)]).pendingObservations.map
      (fun entry => (entry.1,entry.2.container.metadataStatus,entry.2.observedAt)) =
        [(observedIdentity,.retained,"t1".toList)] := by
  constructor
  · have hparsed : ((parseContainerObservation observedRules currentItem).getD none).any (fun o => o.healthy &&
        o.updateAvailable = some false && o.container.identity = some observedIdentity) = true := by decide +kernel
    obtain ⟨o,ho,hgood⟩ := (Option.any_eq_true ..).mp hparsed
    simp only [Bool.and_eq_true,decide_eq_true_eq] at hgood
    refine ⟨o,⟨currentItem,by simp,?_⟩,hgood.1.1,hgood.1.2,hgood.2⟩
    cases hparse : parseContainerObservation observedRules currentItem with
    | none =>
      rw [hparse] at ho
      cases ho
    | some found =>
      rw [hparse,Option.getD_some] at ho
      rw [ho]
  · decide +kernel

end Example
end Wudup

import Mathlib.Logic.Function.Basic
import Wudup.Library.Topological
import Wudup.Json

/-! The order in which a stack's services are listed: dependencies first, and by name where Compose
leaves it open. -/
namespace Wudup
open Library

def composeConfigJsonObjectError : Str := "Compose config JSON is not an object.".toList
def composeConfigServicesObjectError : Str := "Compose config JSON has no services object.".toList
def composeDependencyCycleError : Str := "Compose service dependencies contain a cycle".toList

/-- The services of a configuration; its text was read as a value or as an error before. -/
def servicesFromConfigJson (configJson : Except Str Json) : Except Str Details := do
  match (← configJson) with
  | .object fields => match fields.lookup "services".toList with
    | some (.object services) => .ok services
    | _ => .error composeConfigServicesObjectError
  | _ => .error composeConfigJsonObjectError

def stringElements (value : Option Json) : List Str :=
  (Json.elements value).filterMap fun element => Json.string? (some element)

def beforeColon (value : Str) : Str := value.takeWhile (· ≠ ':')

def dependsOnNames : Option Json → List Str
  | some (.object conditions) => conditions.map (·.1)
  | value => stringElements value

/-- The services a mode such as `service:vpn` shares something with. -/
def sharedService (value : Option Json) : List Str :=
  match Json.string? value with
  | none => []
  | some mode => if "service:".toList.isPrefixOf mode then [mode.drop "service:".toList.length] else []

/-- Services this one must start after, as Compose orders them. -/
def serviceDependencies : Option Json → List Str
  | some (.object config) =>
    dependsOnNames (config.lookup "depends_on".toList) ++
    (stringElements (config.lookup "links".toList)).map beforeColon ++
    ((stringElements (config.lookup "volumes_from".toList)).filter fun source =>
      !"container:".toList.isPrefixOf source).map beforeColon ++
    ["network_mode".toList,"ipc".toList,"pid".toList].flatMap fun key => sharedService (config.lookup key)
  | _ => []

/-- A set of services, in whatever order it is walked through. -/
structure NameSet (services : List Str) where
  names : List Str
  distinct : names.Nodup
  members : ∀ service, service ∈ names ↔ service ∈ services

/-- What each service waits for: neither itself nor a service that is not listed. -/
def dependencyMap (configs : Details) (names : List Str) (service : Str) : List Str :=
  (serviceDependencies (configs.lookup service)).filter fun name => name ∈ names ∧ name ≠ service

/-- The dependencies still open, the services placed and those that may come next. -/
structure ServiceOrdering where
  dependencies : Str → List Str
  ordered : List Str := []
  ready : List Str

/-- A placed service is no longer waited for. -/
def releaseDependent (service : Str) (state : (Str → List Str) × List Str) (dependent : Str) :
    (Str → List Str) × List Str :=
  if service ∈ state.1 dependent then
    let left := (state.1 dependent).filter (· ≠ service)
    (Function.update state.1 dependent left,if left = [] then state.2 ++ [dependent] else state.2)
  else state

/-- Places one of the ready services. -/
def placeService (names : List Str) (state : ServiceOrdering) (service : Str) (ready : List Str) : ServiceOrdering :=
  let released := names.foldl (releaseDependent service) (state.dependencies,ready)
  { dependencies := released.1
    ordered := state.ordered ++ [service]
    ready := released.2.insertionSort (· ≤ ·) }

/-- Runs until no service is ready; `none` where the steps do not suffice. -/
def orderServices (names : List Str) : ℕ → ServiceOrdering → Option (List Str)
  | 0, _ => none
  | steps + 1, state => match state.ready with
    | [] => some state.ordered
    | service :: ready => orderServices names steps (placeService names state service ready)

def dependencyOrderedServices (steps : ℕ) {services : List Str} (names : NameSet services)
    (configJson : Except Str Json) : Option (Except Str (List Str)) :=
  match servicesFromConfigJson configJson with
  | .error message => some (.error message)
  | .ok configs =>
    let dependencies := dependencyMap configs names.names
    let ready := (names.names.filter (dependencies · = [])).insertionSort (· ≤ ·)
    (orderServices names.names steps { dependencies, ready }).map fun ordered =>
      if ordered.length ≠ names.names.length then .error composeDependencyCycleError else .ok ordered

/-- The services of a stack; in Compose's own order where the dependencies can not be read. -/
def configServices (steps : ℕ) (services : List Str) (names : NameSet services) (configJson : Except Str Json) :
    Option (List Str) :=
  if services.length < 2 then some services
  else (dependencyOrderedServices steps names configJson).map fun result => match result with
    | .ok ordered => ordered
    | .error _ => services

/-! One placed service -/

/-- Releasing a service from some of the others leaves the remaining ones as they are. -/
theorem foldl_releaseDependent {service : Str} {dependencies : Str → List Str} {ready : List Str}
    {dependents : List Str} (hn : dependents.Nodup) :
    dependents.foldl (releaseDependent service) (dependencies,ready) =
      (fun v => if v ∈ dependents then (dependencies v).filter (· ≠ service) else dependencies v,
        ready ++ dependents.filter fun v =>
          service ∈ dependencies v ∧ (dependencies v).filter (· ≠ service) = []) := by
  induction dependents generalizing dependencies ready with
  | nil => simp
  | cons w rest ih =>
    obtain ⟨hw,hn⟩ := List.nodup_cons.mp hn
    rw [List.foldl_cons,releaseDependent]
    by_cases hs : service ∈ dependencies w
    · rw [if_pos hs,ih hn]
      have hsame : ∀ v ∈ rest, Function.update dependencies w ((dependencies w).filter (· ≠ service)) v =
          dependencies v := by
        intro v hv
        apply Function.update_of_ne
        intro h
        exact hw (h ▸ hv)
      refine Prod.ext ?_ ?_
      · funext v
        by_cases hv : v = w
        · subst hv
          simp [hw]
        · simp [hv]
      · have hfilter : (rest.filter fun v =>
            service ∈ Function.update dependencies w ((dependencies w).filter (· ≠ service)) v ∧
              (Function.update dependencies w ((dependencies w).filter (· ≠ service)) v).filter (· ≠ service) = []) =
            rest.filter fun v => service ∈ dependencies v ∧ (dependencies v).filter (· ≠ service) = [] := by
          apply List.filter_congr
          intro v hv
          rw [hsame v hv]
        rw [hfilter,List.filter_cons]
        by_cases hleft : (dependencies w).filter (· ≠ service) = []
        · simp only [hleft,hs,if_true,and_self,decide_true,List.append_assoc,List.singleton_append]
        · simp only [hleft,hs,if_false,and_false,decide_false,Bool.false_eq_true]
    · rw [if_neg hs,ih hn]
      have hkept : (dependencies w).filter (· ≠ service) = dependencies w := by
        apply List.filter_eq_self.mpr
        intro v hv
        exact decide_eq_true fun h => hs (h ▸ hv)
      refine Prod.ext ?_ ?_
      · funext v
        by_cases hv : v = w
        · subst hv
          simp only [hw,if_false,List.mem_cons_self,if_true,hkept]
        · simp [hv]
      · rw [List.filter_cons]
        simp [hs]

/-- What holds between two placed services. -/
structure Placing (deps : Str → List Str) (names : List Str) (state : ServiceOrdering) : Prop where
  left : ∀ v ∈ names, state.dependencies v = (deps v).filter (· ∉ state.ordered)
  ready : ∀ v, v ∈ state.ready ↔ Ready deps names {u | u ∈ state.ordered} v
  ready_nodup : state.ready.Nodup
  sorted : state.ready.Pairwise (· ≤ ·)
  nodup : state.ordered.Nodup
  among : ∀ v ∈ state.ordered, v ∈ names
  closed : ∀ v ∈ state.ordered, ∀ d ∈ deps v, d ∈ state.ordered

theorem placing_start (deps : Str → List Str) {names : List Str} (hn : names.Nodup) : Placing deps names
    { dependencies := deps, ready := (names.filter (deps · = [])).insertionSort (· ≤ ·) } where
  left := by simp
  ready := by
    intro v
    simp [Ready,List.eq_nil_iff_forall_not_mem]
  ready_nodup := (List.perm_insertionSort _ _).nodup_iff.mpr (hn.filter _)
  sorted := List.pairwise_insertionSort _ _
  nodup := List.nodup_nil
  among := by simp
  closed := by simp

section
variable {deps : Str → List Str} {names : List Str}

theorem setOf_append_singleton (ordered : List Str) (service : Str) :
    {u | u ∈ ordered ++ [service]} = insert service {u | u ∈ ordered} := by
  ext u
  simp [or_comm]

/-- The services that a placed one was the last to be waited for. -/
def newlyReady (names : List Str) (dependencies : Str → List Str) (service : Str) : List Str :=
  names.filter fun v => service ∈ dependencies v ∧ (dependencies v).filter (· ≠ service) = []

theorem ready_placeService {state : ServiceOrdering} {service : Str} {ready : List Str} (hn : names.Nodup) :
    (placeService names state service ready).ready =
      (ready ++ newlyReady names state.dependencies service).insertionSort (· ≤ ·) := by
  rw [placeService,foldl_releaseDependent hn,newlyReady]

theorem Placing.mem_newlyReady {state : ServiceOrdering} {service : Str} (h : Placing deps names state)
    (hs : service ∉ state.ordered) {v : Str} : v ∈ newlyReady names state.dependencies service ↔
      v ∈ names ∧ service ∈ deps v ∧ ∀ d ∈ deps v, d = service ∨ d ∈ state.ordered := by
  rw [newlyReady,List.mem_filter,decide_eq_true_iff]
  apply and_congr_right
  intro hv
  rw [h.left v hv,List.mem_filter,decide_eq_true_iff,and_iff_left hs,List.filter_filter,List.filter_eq_nil_iff]
  apply and_congr_right
  intro _
  apply forall₂_congr
  intro d _
  simp only [Bool.and_eq_true,decide_eq_true_iff,not_and,not_not]
  tauto

theorem Placing.place {state : ServiceOrdering} {service : Str} {ready : List Str}
    (h : Placing deps names state) (hn : names.Nodup) (hself : ∀ v, v ∉ deps v)
    (hready : state.ready = service :: ready) : Placing deps names (placeService names state service ready) := by
  have hservice : Ready deps names {u | u ∈ state.ordered} service := by
    rw [← h.ready,hready]
    exact List.mem_cons_self
  have hs : service ∉ state.ordered := hservice.2.1
  have hnr := h.ready_nodup
  rw [hready,List.nodup_cons] at hnr
  -- Those released wait for the service, those ready before wait for nothing.
  have hapart : ∀ v ∈ newlyReady names state.dependencies service, v ∉ ready ∧ v ∉ state.ordered := by
    intro v hv
    have hwaits := ((h.mem_newlyReady hs).mp hv).2.1
    constructor
    · intro hold
      exact hs (((h.ready v).mp (hready ▸ List.mem_cons_of_mem _ hold)).2.2 service hwaits)
    · intro hplaced
      exact hs (h.closed v hplaced service hwaits)
  constructor
  · intro v hv
    simp only [placeService,foldl_releaseDependent hn,hv,if_true,h.left v hv,List.filter_filter]
    apply List.filter_congr
    intro d _
    simp [and_comm]
  · intro v
    rw [ready_placeService hn,List.mem_insertionSort,List.mem_append,placeService,setOf_append_singleton]
    constructor
    · rintro (hold | hnew)
      · have hv : Ready deps names {u | u ∈ state.ordered} v := by
          rw [← h.ready,hready]
          exact List.mem_cons_of_mem _ hold
        exact hv.insert fun he => hnr.1 (he ▸ hold)
      · obtain ⟨hv,hwaits,hall⟩ := (h.mem_newlyReady hs).mp hnew
        refine ⟨hv,?_,hall⟩
        rw [Set.mem_insert_iff,not_or]
        exact ⟨fun he => hself v (he ▸ hwaits),(hapart v hnew).2⟩
    · intro ⟨hv,hnot,hall⟩
      rw [Set.mem_insert_iff,not_or] at hnot
      by_cases hwaits : service ∈ deps v
      · exact .inr ((h.mem_newlyReady hs).mpr ⟨hv,hwaits,hall⟩)
      · have hv : v ∈ state.ready := by
          rw [h.ready]
          refine ⟨hv,hnot.2,?_⟩
          intro d hd
          exact (hall d hd).resolve_left fun he => hwaits (he ▸ hd)
        rw [hready] at hv
        exact .inl ((List.mem_cons.mp hv).resolve_left hnot.1)
  · rw [ready_placeService hn,(List.perm_insertionSort _ _).nodup_iff,List.nodup_append]
    refine ⟨hnr.2,hn.filter _,?_⟩
    intro v hold w hnew he
    exact (hapart w hnew).1 (he ▸ hold)
  · exact List.pairwise_insertionSort _ _
  · change (state.ordered ++ [service]).Nodup
    rw [List.nodup_append]
    refine ⟨h.nodup,List.nodup_singleton service,?_⟩
    intro v hv w hw he
    rw [List.mem_singleton] at hw
    exact hs (hw ▸ he ▸ hv)
  · intro v hv
    rcases List.mem_append.mp hv with hv | hv
    · exact h.among v hv
    · rw [List.mem_singleton.mp hv]
      exact hservice.1
  · intro v hv d hd
    apply List.mem_append_left
    rcases List.mem_append.mp hv with hv | hv
    · exact h.closed v hv d hd
    · rw [List.mem_singleton.mp hv] at hd
      exact hservice.2.2 d hd

/-! Whole runs -/

theorem Placing.run {state : ServiceOrdering} {steps : ℕ} (h : Placing deps names state) (hn : names.Nodup)
    (hself : ∀ v, v ∉ deps v) (hsteps : names.length < state.ordered.length + steps) :
    ∃ rest, orderServices names steps state = some (state.ordered ++ rest) ∧
      LeastFirst deps names {u | u ∈ state.ordered} rest := by
  induction steps generalizing state with
  | zero =>
    have hle := (h.nodup.subperm h.among).length_le
    omega
  | succ steps ih =>
    rw [orderServices]
    cases hready : state.ready with
    | nil =>
      refine ⟨[],by rw [List.append_nil],.stop ?_⟩
      intro v hv
      rw [← h.ready,hready] at hv
      cases hv
    | cons service ready =>
      have hservice := (h.ready service).mp (hready ▸ List.mem_cons_self)
      have hplaced : (placeService names state service ready).ordered = state.ordered ++ [service] := rfl
      obtain ⟨rest,hrun,hrest⟩ := ih (h.place hn hself hready) (by
        rw [hplaced,List.length_append,List.length_singleton]
        omega)
      rw [hplaced,setOf_append_singleton] at hrest
      refine ⟨service :: rest,?_,.take hservice ?_ hrest⟩
      · simp [hrun,hplaced]
      · intro v hv
        rw [← h.ready,hready] at hv
        have hsorted := h.sorted
        rw [hready,List.pairwise_cons] at hsorted
        rcases List.mem_cons.mp hv with rfl | hv
        · exact le_refl _
        · exact hsorted.1 v hv

end

theorem not_mem_dependencyMap_self (configs : Details) (names : List Str) (service : Str) :
    service ∉ dependencyMap configs names service := by
  simp [dependencyMap]

theorem mem_names_of_dependency {configs : Details} {names : List Str} {service d : Str}
    (h : d ∈ dependencyMap configs names service) : d ∈ names := by
  have h := (List.mem_filter.mp h).2
  simp only [decide_eq_true_iff] at h
  exact h.1

/-- The order that is computed before it is checked for services left over. -/
theorem dependencyOrderedServices_eq {steps : ℕ} {services : List Str} {names : NameSet services}
    {configJson : Except Str Json} {configs : Details} (hc : servicesFromConfigJson configJson = .ok configs)
    (hsteps : names.names.length < steps) :
    ∃ ordered, LeastFirst (dependencyMap configs names.names) names.names ∅ ordered ∧
      dependencyOrderedServices steps names configJson =
        some (if ordered.length ≠ names.names.length then .error composeDependencyCycleError else .ok ordered) := by
  have hbound : names.names.length < ([] : List Str).length + steps := by
    simpa using hsteps
  obtain ⟨ordered,hrun,hleast⟩ := (placing_start (dependencyMap configs names.names) names.distinct).run
    names.distinct (not_mem_dependencyMap_self configs names.names) hbound
  refine ⟨ordered,?_,?_⟩
  · simpa using hleast
  · simp only [dependencyOrderedServices,hc,hrun,List.nil_append,Option.map_some]

theorem dependencyMap_congr (configs : Details) {names names' : List Str} (h : ∀ v, v ∈ names ↔ v ∈ names') :
    dependencyMap configs names = dependencyMap configs names' := by
  funext service
  apply List.filter_congr
  intro d _
  simp only [h d]

/-- What is returned and what is raised, for every way to walk through the set of services. -/
theorem dependencyOrderedServices_spec {steps : ℕ} {services : List Str} {names : NameSet services}
    (configJson : Except Str Json) (hsteps : names.names.length < steps) :
    ∃ result, dependencyOrderedServices steps names configJson = some result ∧
      (∀ order, result = .ok order ↔ ∃ configs, servicesFromConfigJson configJson = .ok configs ∧
        LeastOrder (dependencyMap configs services) names.names order) ∧
      ∀ message, result = .error message ↔ servicesFromConfigJson configJson = .error message ∨
        message = composeDependencyCycleError ∧ ∃ configs, servicesFromConfigJson configJson = .ok configs ∧
          Cyclic (dependencyMap configs services) services := by
  cases hc : servicesFromConfigJson configJson with
  | error message =>
    refine ⟨.error message,?_,?_,?_⟩
    · simp only [dependencyOrderedServices,hc]
    · simp
    · simp
  | ok configs =>
    obtain ⟨ordered,hleast,hrun⟩ := dependencyOrderedServices_eq hc hsteps
    have hmap := dependencyMap_congr configs names.members
    have hcyclic : Cyclic (dependencyMap configs services) services ↔
        Cyclic (dependencyMap configs names.names) names.names := by
      rw [hmap]
      exact cyclic_congr fun v => (names.members v).symm
    have hcomplete := hleast.complete_iff names.distinct fun v _ d => mem_names_of_dependency
    rw [hmap] at hleast hcomplete hcyclic
    by_cases hl : ordered.length = names.names.length
    · have horder := hleast.leastOrder hl.ge
      refine ⟨.ok ordered,by rw [hrun,if_neg (not_not_intro hl)],?_,?_⟩
      · intro order
        simp only [Except.ok.injEq,exists_eq_left']
        exact ⟨fun h => h ▸ horder,fun h => horder.unique h⟩
      · simpa [hcyclic] using hcomplete.mp hl
    · have hcycle : Cyclic (dependencyMap configs services) names.names := by
        by_contra hnone
        exact hl (hcomplete.mpr hnone)
      refine ⟨.error composeDependencyCycleError,by rw [hrun,if_pos hl],?_,?_⟩
      · intro order
        simp only [reduceCtorEq,false_iff,Except.ok.injEq,exists_eq_left']
        intro horder
        exact horder.not_cyclic hcycle
      · intro message
        simp [hcyclic,hcycle,eq_comm]

/-- The services of a set are returned in the order that comes first by name among those that place
each service after its dependencies, whatever the order they were listed in; what is raised is
a configuration that can not be read, or a cycle. A service's dependencies on itself and on services
that are not listed are left out. -/
theorem dependency_ordered_services {steps : ℕ} {services : List Str} (names : NameSet services)
    (configJson : Except Str Json) (hsteps : names.names.length < steps) :
    ∃ result, dependencyOrderedServices steps names configJson = some result ∧
      (∀ order, result = .ok order ↔ ∃ configs, servicesFromConfigJson configJson = .ok configs ∧
        LeastOrder (dependencyMap configs services) names.names order) ∧
      (∀ message, result = .error message ↔ servicesFromConfigJson configJson = .error message ∨
        message = composeDependencyCycleError ∧ ∃ configs, servicesFromConfigJson configJson = .ok configs ∧
          Cyclic (dependencyMap configs services) services) ∧
      ∀ (steps' : ℕ) (services' : List Str) (names' : NameSet services'), (∀ v, v ∈ services' ↔ v ∈ services) →
        names'.names.length < steps' → dependencyOrderedServices steps' names' configJson = some result := by
  obtain ⟨result,hrun,hok,herror⟩ := dependencyOrderedServices_spec configJson hsteps
  refine ⟨result,hrun,hok,herror,?_⟩
  intro steps' services' names' hsame hsteps'
  obtain ⟨result',hrun',hok',herror'⟩ := dependencyOrderedServices_spec configJson hsteps'
  have hperm : names'.names.Perm names.names := by
    rw [List.perm_ext_iff_of_nodup names'.distinct names.distinct]
    intro v
    rw [names'.members,names.members,hsame]
  rw [hrun']
  cases result with
  | ok order =>
    obtain ⟨configs,hc,horder⟩ := (hok order).mp rfl
    congr 1
    refine (hok' order).mpr ⟨configs,hc,?_⟩
    rw [dependencyMap_congr configs hsame]
    refine ⟨horder.perm.trans hperm.symm,horder.first,?_⟩
    intro other hother
    exact horder.least other (hother.trans hperm)
  | error message =>
    congr 1
    apply (herror' message).mpr
    refine ((herror message).mp rfl).imp_right ?_
    rintro ⟨hm,configs,hc,hcycle⟩
    refine ⟨hm,configs,hc,?_⟩
    rw [dependencyMap_congr configs hsame]
    exact (cyclic_congr hsame).mpr hcycle

/-- No service of a stack is lost or added. -/
theorem mem_configServices {steps : ℕ} {services : List Str} (names : NameSet services)
    (configJson : Except Str Json) (hsteps : names.names.length < steps) :
    ∃ result, configServices steps services names configJson = some result ∧ ∀ v, v ∈ result ↔ v ∈ services := by
  obtain ⟨result,hrun,hok,-⟩ := dependencyOrderedServices_spec configJson hsteps
  by_cases hfew : services.length < 2
  · exact ⟨services,if_pos hfew,fun _ => Iff.rfl⟩
  · rw [configServices,if_neg hfew,hrun,Option.map_some]
    cases result with
    | ok order =>
      obtain ⟨configs,-,horder⟩ := (hok order).mp rfl
      refine ⟨order,rfl,?_⟩
      intro v
      rw [horder.perm.mem_iff,names.members]
    | error message => exact ⟨services,rfl,fun _ => Iff.rfl⟩

namespace Example

/-- A configuration of services that name what they depend on. -/
def dependsOnConfig (services : List (Str × List Str)) : Except Str Json :=
  .ok (.object [("services".toList,.object (services.map fun (service,names) =>
    (service,.object [("depends_on".toList,.array (names.map .string))])))])

def vpnConfig : Except Str Json :=
  dependsOnConfig [("app".toList,["vpn".toList]),("vpn".toList,["db".toList]),("db".toList,["unknown".toList])]

def vpnNames : NameSet ["app".toList,"vpn".toList,"db".toList] where
  names := ["vpn".toList,"app".toList,"db".toList]
  distinct := by decide
  members := by
    intro service
    simp only [List.mem_cons,List.not_mem_nil,or_false]
    tauto

theorem vpn_ordered : ∃ result, dependencyOrderedServices 4 vpnNames vpnConfig = some result ∧
    result = .ok ["db".toList,"vpn".toList,"app".toList] := by
  obtain ⟨result,hrun,-⟩ := dependency_ordered_services vpnNames vpnConfig (by decide : _ < 4)
  refine ⟨result,hrun,?_⟩
  have hcomputed : dependencyOrderedServices 4 vpnNames vpnConfig =
      some (.ok ["db".toList,"vpn".toList,"app".toList]) := by
    rfl
  exact Option.some.inj (hrun.symm.trans hcomputed)

def selfConfig : Except Str Json := dependsOnConfig [("app".toList,["app".toList])]

def selfNames : NameSet ["app".toList] := ⟨["app".toList],by decide,by simp⟩

/-- A service that depends on itself is no cycle. -/
theorem self_dependency_ordered : dependencyOrderedServices 2 selfNames selfConfig = some (.ok ["app".toList]) ∧
    ∃ configs, servicesFromConfigJson selfConfig = .ok configs ∧
      Cyclic (fun service => serviceDependencies (configs.lookup service)) ["app".toList] := by
  refine ⟨by rfl,_,by rfl,"app".toList,.single ⟨List.mem_singleton_self _,List.mem_singleton_self _,?_⟩⟩
  decide

end Example

end Wudup

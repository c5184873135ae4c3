import Wudup.Library.DepthFirst
import Wudup.Library.Keyed
import Wudup.RunningImages
import Wudup.SelfScope

/-! Services that share another service's network: which services an update has to stop and start
again with them, and in which order. -/
namespace Wudup
open Library

/-- The service whose network each service uses. -/
structure ProviderMap where
  entries : List (Str × Str)
  distinct : (entries.map (·.1)).Nodup

def ProviderMap.provider (providers : ProviderMap) (service : Str) : Option Str :=
  providers.entries.lookup service

def ProviderMap.put (providers : ProviderMap) (service provider : Str) : ProviderMap where
  entries := Keyed.set Prod.fst (service,provider) providers.entries
  distinct := Keyed.nodup_set providers.distinct

def networkModeProviders (serviceImages : List ServiceImage) : ProviderMap :=
  serviceImages.foldl (fun providers item =>
    let mode := strip item.networkMode
    if !("service:".toList.isPrefixOf mode) then providers
    else
      let provider := strip (mode.drop "service:".toList.length)
      if provider = [] then providers else providers.put item.service provider) ⟨[],List.nodup_nil⟩

/-- The services that use the network of each provider. -/
def networkModeConsumers (providers : ProviderMap) : List (Str × List Str) :=
  let links := providers.entries.filter fun (service,provider) => provider ≠ [] && provider ≠ service
  (orderedUnique (links.map (·.2))).map fun provider =>
    (provider,((links.filter (·.2 = provider)).map (·.1)).insertionSort (· ≤ ·))

/-- The consumers of a service's network. -/
def consumersOf (providers : ProviderMap) (service : Str) : List Str :=
  ((networkModeConsumers providers).lookup service).getD []

/-- Where a walk over the consumers stands. -/
structure NetworkWalk where
  expanded : List Str := []
  seen : List Str := []
  visiting : List Str := []
  usesNetworkProvider : Bool := false
  deriving DecidableEq, Repr

/-- Adds a service and the services that use its network; `none` where the calls nest too deep. -/
def visit (consumersByProvider : Str → List Str) (depth : ℕ) (walk : NetworkWalk) (service : Str) :
    Option NetworkWalk :=
  if service ∈ walk.seen then some walk
  else if service ∈ walk.visiting then some walk
  else match depth with
    | 0 => none
    | depth + 1 =>
      let consumers := consumersByProvider service
      let entered := { walk with
        visiting := service :: walk.visiting
        usesNetworkProvider := walk.usesNetworkProvider || !consumers.isEmpty }
      let added := if service ∈ entered.seen then entered
        else { entered with expanded := entered.expanded ++ [service], seen := entered.seen ++ [service] }
      (consumers.foldlM (visit consumersByProvider depth) added).map fun left =>
        { left with visiting := left.visiting.erase service }

def expandNetworkModeServices (depth : ℕ) (services : List Str) (providers : ProviderMap) :
    Option (List Str × Bool) :=
  (services.foldlM (visit (consumersOf providers) depth) {}).map fun walk =>
    (walk.expanded,walk.usesNetworkProvider)

/-- What Docker Compose answers while the scope of an update is made; `none` is a failed command. -/
structure ScopeCommands where
  psQuiet : List Str → Option (List Str)
  inspect : Str → Option (List Str)
  configServices : Option (List Str)

/-- Outside the strict check a failed listing counts as empty. -/
def listing (strict : Bool) (answer : Option (List Str)) : Option (List Str) :=
  if strict then answer else some (answer.getD [])

/-- The providers of selected services that are not selected and have no container. -/
def missingNetworkModeProviders (strict : Bool) (commands : ScopeCommands) (services : List Str)
    (providers : ProviderMap) : Option (List Str) :=
  services.foldlM (fun missing service =>
    match providers.provider service with
    | none => some missing
    | some provider =>
      if provider = [] || services.contains provider || missing.contains provider then some missing
      else (listing strict (commands.psQuiet [provider])).map fun cids =>
        if cids = [] then missing ++ [provider] else missing) []

def stackStopServices (strict : Bool) (commands : ScopeCommands) : Option (Option (List Str)) :=
  match commands.configServices with
  | none => if strict then none else some none
  | some services =>
    if services = [] then if strict then none else some none
    else some (some services.reverse)

def labelValueIsTrue (value : Str) : Bool := (strip value).map Char.toLower = "true".toList

/-- The first container whose label asks to recreate the whole stack. -/
def labelledCid (strict : Bool) (commands : ScopeCommands) : List Str → Option Str
  | [] => some []
  | cid :: rest => do
    let values ← listing strict (commands.inspect cid)
    if values.any labelValueIsTrue then some cid else labelledCid strict commands rest

def stackRecreateLabelCid (strict : Bool) (commands : ScopeCommands) (services : List Str) : Option Str := do
  labelledCid strict commands (← listing strict (commands.psQuiet services))

def recreateStackLabel : Str := "WUD-UPDATER-RECREATE-STACK".toList

/-- The scopes that a check before the update has made already. -/
abbrev VerifiedScopes := List ((ℕ × Option (List Str)) × UpdateScope)

/-- What an update of a stack stops, pulls and starts; `none` where a lookup failed. -/
def updateScope (depth : ℕ) (verified : VerifiedScopes) (strict : Bool) (commands : ScopeCommands)
    (stack : ComposeStack) (matched : List Match) : Option UpdateScope :=
  let selected := updateServices matched
  match (if strict then none else verified.lookup (stack.index,selected)) with
  | some found => some found
  | none =>
    match selected with
    | none => do
      return { services := none, pullServices := none, stopServices := ← stackStopServices strict commands,
               forceRecreate := true }
    | some services => do
      let providers := networkModeProviders stack.serviceImages
      let expansion ← expandNetworkModeServices depth services providers
      let missing ← missingNetworkModeProviders strict commands services providers
      let lifecycle := if missing = [] then expansion.1 else orderedUnique (missing ++ expansion.1)
      let uses := expansion.2 || missing ≠ []
      let stop := if missing ≠ [] then services else if uses then lifecycle.reverse else lifecycle
      let cid ← stackRecreateLabelCid strict commands lifecycle
      if cid ≠ [] then
        return { services := none, pullServices := some services,
                 stackReason := "selected service scope container ".toList ++ cid ++ " has ".toList ++
                   recreateStackLabel ++ "=true".toList,
                 stopServices := ← stackStopServices strict commands, forceRecreate := false }
      else
        return { services := some lifecycle, pullServices := some services, stopServices := some stop,
                 upNoDeps := !uses }

/-! The walk as a depth-first walk. -/

/-- Where a walk stands that has entered these services. -/
def NetworkWalk.of (consumersByProvider : Str → List Str) (expanded visiting : List Str) : NetworkWalk where
  expanded := expanded
  seen := expanded
  visiting := visiting
  usesNetworkProvider := expanded.any fun service => !(consumersByProvider service).isEmpty

variable {depth : ℕ}

section
variable {consumersByProvider : Str → List Str} {expanded visiting : List Str}

theorem foldlM_of {step : NetworkWalk → Str → Option NetworkWalk} {walk : List Str → Str → Option (List Str)}
    (hw : ∀ found service result, walk found service = some result →
      Walked consumersByProvider found [service] result)
    (h : ∀ found service, visiting ⊆ found → step (.of consumersByProvider found visiting) service =
      (walk found service).map (.of consumersByProvider · visiting))
    {services found : List Str} (hv : visiting ⊆ found) :
    services.foldlM step (.of consumersByProvider found visiting) =
      (services.foldlM walk found).map (.of consumersByProvider · visiting) := by
  induction services generalizing found with
  | nil => rfl
  | cons service rest ih =>
    rw [List.foldlM_cons,List.foldlM_cons,h found service hv]
    cases hm : walk found service with
    | none => rfl
    | some mid => exact ih fun x hx => (hw _ _ _ hm).kept.mem (hv hx)

theorem visit_of_mem {service : Str} (h : service ∈ expanded) :
    visit consumersByProvider depth (.of consumersByProvider expanded visiting) service =
      some (.of consumersByProvider expanded visiting) := by
  cases depth <;> simp [visit,NetworkWalk.of,h]

/-- A service that is entered is expanded before its consumers. -/
theorem visit_of_enter {service : Str} (hs : service ∉ expanded) (hn : service ∉ visiting) :
    visit consumersByProvider (depth + 1) (.of consumersByProvider expanded visiting) service =
      ((consumersByProvider service).foldlM (visit consumersByProvider depth)
        (.of consumersByProvider (expanded ++ [service]) (service :: visiting))).map fun left =>
          { left with visiting := left.visiting.erase service } := by
  have hof : NetworkWalk.of consumersByProvider (expanded ++ [service]) (service :: visiting) =
      ⟨expanded ++ [service],expanded ++ [service],service :: visiting,
        (expanded.any fun s => !(consumersByProvider s).isEmpty) || !(consumersByProvider service).isEmpty⟩ := by
    simp [NetworkWalk.of]
  rw [hof]
  simp [visit,NetworkWalk.of,hs,hn]

theorem visit_of (hv : visiting ⊆ expanded) (service : Str) :
    visit consumersByProvider depth (.of consumersByProvider expanded visiting) service =
      (depthFirst consumersByProvider depth expanded service).map (.of consumersByProvider · visiting) := by
  induction depth generalizing expanded visiting service with
  | zero =>
    by_cases hs : service ∈ expanded
    · rw [visit_of_mem hs,depthFirst_of_mem hs]
      rfl
    · have hn : service ∉ visiting := fun h => hs (hv h)
      rw [depthFirst_zero hs]
      simp [visit,NetworkWalk.of,hs,hn]
  | succ depth ih =>
    by_cases hs : service ∈ expanded
    · rw [visit_of_mem hs,depthFirst_of_mem hs]
      rfl
    · have hsub : service :: visiting ⊆ expanded ++ [service] := by
        intro s h
        rcases List.mem_cons.mp h with rfl | h
        · simp
        · simp [hv h]
      rw [visit_of_enter hs (fun h => hs (hv h)),depthFirst_succ hs,
        foldlM_of (fun _ _ _ => walked_depthFirst) (fun _ s hf => ih hf s) hsub,Option.map_map]
      congr 1
      funext found
      simp [NetworkWalk.of]

/-- The expansion is the depth-first walk from the selected services. -/
theorem expandNetworkModeServices_eq (services : List Str) (providers : ProviderMap) :
    expandNetworkModeServices depth services providers =
      (services.foldlM (depthFirst (consumersOf providers) depth) []).map fun expanded =>
        (expanded,expanded.any fun service => !(consumersOf providers service).isEmpty) := by
  have hstart : ({} : NetworkWalk) = .of (consumersOf providers) [] [] := rfl
  have h : services.foldlM (visit (consumersOf providers) depth) (.of (consumersOf providers) [] []) =
      (services.foldlM (depthFirst (consumersOf providers) depth) []).map (.of (consumersOf providers) · []) :=
    foldlM_of (fun _ _ _ => walked_depthFirst) (fun _ s hf => visit_of hf s) (List.Subset.refl _)
  rw [expandNetworkModeServices,hstart,h,Option.map_map]
  rfl

end

/-! What the expansion is for. -/

/-- A service uses the network of another one. -/
def Consumes (providers : ProviderMap) (consumer provider : Str) : Prop :=
  providers.provider consumer = some provider ∧ provider ≠ [] ∧ provider ≠ consumer

theorem mem_consumersOf {providers : ProviderMap} {consumer provider : Str} :
    consumer ∈ consumersOf providers provider ↔ Consumes providers consumer provider := by
  have hkeys : ((networkModeConsumers providers).map (·.1)).Nodup := by
    simpa [networkModeConsumers,Function.comp_def] using nodup_orderedUnique _
  rw [Consumes,ProviderMap.provider,lookup_eq_some_iff_mem providers.distinct]
  cases hl : (networkModeConsumers providers).lookup provider with
  | none =>
    rw [consumersOf,hl]
    rw [List.lookup_eq_none_iff] at hl
    constructor
    · simp
    · rintro ⟨hm,hne,hself⟩
      have hlink : provider ∈ (providers.entries.filter fun (service,provider) =>
          provider ≠ [] && provider ≠ service).map (·.2) :=
        List.mem_map.mpr ⟨(consumer,provider),by simp [hm,hne,hself],rfl⟩
      have hkey := hl _ (List.mem_map.mpr ⟨provider,mem_orderedUnique.mpr hlink,rfl⟩)
      simp at hkey
  | some consumers =>
    rw [consumersOf,hl]
    obtain ⟨p,-,he⟩ := List.mem_map.mp ((lookup_eq_some_iff_mem hkeys).mp hl)
    obtain ⟨rfl,rfl⟩ := Prod.mk.inj he
    simp [List.mem_insertionSort]

theorem consumersOf_forest (providers : ProviderMap) : Forest (consumersOf providers) := by
  intro p q consumer hp hq
  have hp := (mem_consumersOf.mp hp).1
  rw [(mem_consumersOf.mp hq).1] at hp
  exact (Option.some.inj hp).symm

theorem mem_keys_of_consumer {providers : ProviderMap} {provider consumer : Str}
    (h : consumer ∈ consumersOf providers provider) : consumer ∈ providers.entries.map (·.1) := by
  have hm := (lookup_eq_some_iff_mem providers.distinct).mp (mem_consumersOf.mp h).1
  exact List.mem_map.mpr ⟨_,hm,rfl⟩

/-- No service uses its own network through others. -/
def ProviderMap.Acyclic (providers : ProviderMap) : Prop :=
  ∀ service, ¬ Relation.TransGen (fun consumer provider => providers.provider consumer = some provider ∧
    provider ≠ []) service service

/-- What the expansion of the selected services should be: no service twice, the least set that holds
the selected services and the consumers of what it holds, a flag for consumers in it, and each provider
before its consumers, so that the reverse stops the consumers first. -/
structure Expands (providers : ProviderMap) (services expanded : List Str) (usesNetworkProvider : Bool) :
    Prop where
  nodup : expanded.Nodup
  least : ∀ service, service ∈ expanded ↔ ∀ chosen : Set Str, (∀ s ∈ services, s ∈ chosen) →
    (∀ provider ∈ chosen, ∀ consumer, Consumes providers consumer provider → consumer ∈ chosen) → service ∈ chosen
  flag : usesNetworkProvider = true ↔ ∃ provider ∈ expanded, ∃ consumer, Consumes providers consumer provider
  ordered : providers.Acyclic → ∀ provider ∈ expanded, ∀ consumer, Consumes providers consumer provider →
    expanded.idxOf provider < expanded.idxOf consumer ∧
      expanded.reverse.idxOf consumer < expanded.reverse.idxOf provider

/-- A service uses the network of another one, directly or through others. -/
def UsesNetwork (providers : ProviderMap) : Str → Str → Prop := Relation.TransGen (Consumes providers)

/-- A selected service that uses the network of other selected ones comes after one of them. -/
def SelectedInOrder (providers : ProviderMap) (services : List Str) : Prop :=
  ∀ consumer ∈ services, (∃ provider ∈ services, UsesNetwork providers consumer provider) →
    ∃ provider ∈ services, UsesNetwork providers consumer provider ∧
      services.idxOf provider < services.idxOf consumer

theorem below_iff {providers : ProviderMap} {consumer provider : Str} :
    Below (consumersOf providers) consumer provider ↔ UsesNetwork providers consumer provider := by
  have he : Leads (consumersOf providers) = Function.swap (Consumes providers) := by
    ext a b
    exact mem_consumersOf
  rw [Below,he,Relation.transGen_swap,UsesNetwork]

theorem rootsOrdered_iff {providers : ProviderMap} {services : List Str} :
    RootsOrdered (consumersOf providers) services ↔ SelectedInOrder providers services := by
  simp only [RootsOrdered,SelectedInOrder,below_iff]
  constructor
  · rintro h consumer hc ⟨provider,hp,hu⟩
    exact h consumer hc provider hp hu
  · intro h consumer hc provider hp hu
    exact h consumer hc ⟨provider,hp,hu⟩

theorem mem_iff_least {providers : ProviderMap} {services expanded : List Str}
    (h : Walked (consumersOf providers) [] services expanded) (service : Str) :
    service ∈ expanded ↔ ∀ chosen : Set Str, (∀ s ∈ services, s ∈ chosen) →
      (∀ provider ∈ chosen, ∀ consumer, Consumes providers consumer provider → consumer ∈ chosen) →
        service ∈ chosen := by
  constructor
  · intro hs chosen hroots hclosed
    obtain ⟨root,hroot,hreach⟩ := h.mem_iff.mp hs
    induction hreach with
    | refl => exact hroots root hroot
    | tail hr hstep ih => exact hclosed _ (ih (h.mem_iff.mpr ⟨root,hroot,hr⟩)) _ (mem_consumersOf.mp hstep)
  · intro hs
    refine hs {s | s ∈ expanded} h.rooted fun provider hp consumer hc => ?_
    exact h.closed provider hp (by simp) consumer (mem_consumersOf.mpr hc)

theorem any_consumers {providers : ProviderMap} {expanded : List Str} :
    (expanded.any fun service => !(consumersOf providers service).isEmpty) = true ↔
      ∃ provider ∈ expanded, ∃ consumer, Consumes providers consumer provider := by
  rw [List.any_eq_true]
  refine exists_congr fun provider => and_congr_right fun _ => ?_
  simp only [Bool.not_eq_true',List.isEmpty_eq_false_iff_exists_mem,mem_consumersOf]

/-- The result of a walk, under every bound above the number of services that use a network. -/
theorem exists_expansion (providers : ProviderMap) (services : List Str) : ∃ expanded, ∀ depth,
    providers.entries.length < depth →
      services.foldlM (depthFirst (consumersOf providers) depth) [] = some expanded ∧
        expandNetworkModeServices depth services providers =
          some (expanded,expanded.any fun service => !(consumersOf providers service).isEmpty) := by
  have hkeys : ∀ provider, ∀ consumer ∈ consumersOf providers provider,
      consumer ∈ providers.entries.map (·.1) := fun _ _ => mem_keys_of_consumer
  obtain ⟨expanded,h⟩ := exists_walk hkeys services
  rw [List.length_map] at h
  refine ⟨expanded,fun depth hd => ⟨h depth hd,?_⟩⟩
  rw [expandNetworkModeServices_eq,h depth hd]
  rfl

/-- What a walk expands is what it should be where the selected services come in order. -/
theorem expands_of_walk {providers : ProviderMap} {services expanded : List Str}
    (h : services.foldlM (depthFirst (consumersOf providers) depth) [] = some expanded)
    (hord : providers.Acyclic → SelectedInOrder providers services) :
    Expands providers services expanded
      (expanded.any fun service => !(consumersOf providers service).isEmpty) := by
  have hw := walked_foldlM (fun _ _ _ => walked_depthFirst) h
  have hnodup := hw.nodup List.nodup_nil
  constructor
  · exact hnodup
  · exact mem_iff_least hw
  · exact any_consumers
  · intro hacyclic p hp c hc
    have hfirst := parentsFirst_of_rootsOrdered (consumersOf_forest providers) h
      (rootsOrdered_iff.mpr (hord hacyclic))
    have hlt := hfirst p hp c (mem_consumersOf.mpr hc)
    have hcm : c ∈ expanded := hw.closed p hp (by simp) c (mem_consumersOf.mpr hc)
    exact ⟨hlt,(idxOf_reverse_lt hnodup hp hcm).mpr hlt⟩

/-- The expansion ends under every bound on nested calls above the number of services that use a network,
and is what it should be exactly where the provider map has a cycle or the selected services come in order. -/
theorem network_expansion_iff (providers : ProviderMap) (services : List Str) :
    (∃ expanded usesNetworkProvider,
      (∀ depth, providers.entries.length < depth →
        expandNetworkModeServices depth services providers = some (expanded,usesNetworkProvider)) ∧
      Expands providers services expanded usesNetworkProvider) ↔
    (providers.Acyclic → SelectedInOrder providers services) := by
  obtain ⟨result,hresult⟩ := exists_expansion providers services
  obtain ⟨hwalk,hrun⟩ := hresult _ (Nat.lt_succ_self _)
  constructor
  · rintro ⟨expanded,uses,hends,hexp⟩ hacyclic
    rw [hends _ (Nat.lt_succ_self _)] at hrun
    obtain ⟨rfl,-⟩ := Prod.mk.inj (Option.some.inj hrun)
    rw [← rootsOrdered_iff,← parentsFirst_iff_rootsOrdered (consumersOf_forest providers) hwalk]
    exact fun p hp c hc => (hexp.ordered hacyclic p hp c (mem_consumersOf.mp hc)).1
  · intro hord
    exact ⟨result,_,fun depth hd => (hresult depth hd).2,expands_of_walk hwalk hord⟩

/-- An app on the network of a VPN service, both selected, in alphabetical order. -/
def vpnProviders : ProviderMap where
  entries := [("app".toList,"vpn".toList)]
  distinct := by decide

theorem vpnProviders_acyclic : vpnProviders.Acyclic := by
  have hlink : ∀ a b, vpnProviders.provider a = some b ∧ b ≠ [] → a = "app".toList ∧ b = "vpn".toList := by
    rintro a b ⟨h,-⟩
    have hm := (lookup_eq_some_iff_mem vpnProviders.distinct).mp h
    simpa [vpnProviders] using hm
  intro service h
  have hfrom : service = "app".toList := by
    obtain ⟨b,hb,-⟩ := Relation.TransGen.head'_iff.mp h
    exact (hlink _ _ hb).1
  have hto : service = "vpn".toList := by
    obtain ⟨b,-,hb⟩ := Relation.TransGen.tail'_iff.mp h
    exact (hlink _ _ hb).2
  rw [hfrom] at hto
  exact absurd hto (by decide)

/-- The app comes before the VPN, so the reverse stops the VPN first. -/
theorem vpn_stops_first :
    ¬ ∃ expanded usesNetworkProvider,
      (∀ depth, vpnProviders.entries.length < depth →
        expandNetworkModeServices depth ["app".toList,"vpn".toList] vpnProviders =
          some (expanded,usesNetworkProvider)) ∧
      Expands vpnProviders ["app".toList,"vpn".toList] expanded usesNetworkProvider := by
  rintro ⟨expanded,uses,hends,hexp⟩
  have hrun : expandNetworkModeServices 2 ["app".toList,"vpn".toList] vpnProviders =
      some (["app".toList,"vpn".toList],true) := by decide
  rw [hends 2 (by decide)] at hrun
  cases hrun
  have := hexp.ordered vpnProviders_acyclic "vpn".toList (by decide) "app".toList
    ⟨by decide,by decide,by decide⟩
  exact absurd this.1 (by decide)

/-- A scope of services stops consumers before their providers, where every provider of a selected service
is selected or has a container and the selected services come in order. -/
theorem updateScope_stops_consumers_first {verified : VerifiedScopes} {strict : Bool}
    {commands : ScopeCommands} {stack : ComposeStack} {matched : List Match} {scope : UpdateScope}
    {services lifecycle : List Str}
    (hd : (networkModeProviders stack.serviceImages).entries.length < depth)
    (hacyclic : (networkModeProviders stack.serviceImages).Acyclic)
    (hord : SelectedInOrder (networkModeProviders stack.serviceImages) services)
    (hservices : updateServices matched = some services)
    (hfresh : strict = true ∨ verified.lookup (stack.index,some services) = none)
    (hmissing : missingNetworkModeProviders strict commands services
      (networkModeProviders stack.serviceImages) = some [])
    (h : updateScope depth verified strict commands stack matched = some scope)
    (hl : scope.services = some lifecycle) :
    ∃ stop, scope.stopServices = some stop ∧ ∀ provider ∈ lifecycle, ∀ consumer,
      Consumes (networkModeProviders stack.serviceImages) consumer provider →
        stop.idxOf consumer < stop.idxOf provider := by
  obtain ⟨expanded,hresult⟩ := exists_expansion (networkModeProviders stack.serviceImages) services
  obtain ⟨hwalk,hrun⟩ := hresult depth hd
  have hexp := expands_of_walk hwalk fun _ => hord
  have hnone : (if strict then none else verified.lookup (stack.index,some services)) = none := by
    rcases hfresh with rfl | hf
    · rfl
    · rw [hf,ite_self]
  simp only [updateScope,hservices,hnone,hrun,hmissing,Option.bind_eq_bind,Option.bind_some] at h
  obtain ⟨cid,-,h⟩ := Option.bind_eq_some_iff.mp h
  split at h
  · obtain ⟨stop,-,h⟩ := Option.bind_eq_some_iff.mp h
    cases h
    cases hl
  · cases h
    cases hl
    refine ⟨_,rfl,fun provider hp consumer hc => ?_⟩
    have huses := hexp.flag.mpr ⟨provider,hp,consumer,hc⟩
    simpa [huses] using (hexp.ordered hacyclic provider hp consumer hc).2

end Wudup

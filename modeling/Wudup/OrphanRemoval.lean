import Wudup.ServiceRuntime

/-! When a project may be recreated with its orphans removed: which Compose files its containers came from. -/
namespace Wudup
open Library

/-- The key of a row without a state; tabs after the fourth one belong to the last field. -/
def composeRuntimeKeyFromRow (rules : CaseRules) (row : Str) : Option ComposeRuntimeServiceKey :=
  match row.splitOn '\t' with
  | workingDir :: configFiles :: project :: service :: oneoff :: rest =>
    composeRuntimeServiceKeyFromFields rules workingDir configFiles project service
      (['\t'].intercalate (oneoff :: rest))
  | _ => none

def composeRuntimeServiceKeys (rules : CaseRules) (rows : List Str) : List ComposeRuntimeServiceKey :=
  rows.filterMap (composeRuntimeKeyFromRow rules)

section
variable (projectDirectory composeFile projectName : Str) (runtimeKeys : List ComposeRuntimeServiceKey)

/-- The file an update loads. -/
def discoveredFileSet : Finset Str := (composeRuntimeServiceKey projectDirectory composeFile projectName []).paths

def projectRuntimeFileSets : RuntimeFileSets :=
  ((runtimeKeys.filter (·.project = projectName)).map (·.paths)).foldl
    (RuntimeFileSets.add (discoveredFileSet projectDirectory composeFile projectName)) {}

def runtimeExtraConfigFiles (knownFileSets : List (Finset Str)) : Finset Str :=
  composeRuntimeExtraConfigFiles (projectRuntimeFileSets projectDirectory composeFile projectName runtimeKeys)
    knownFileSets

def composeRuntimeProjectShared : Bool :=
  (projectRuntimeFileSets projectDirectory composeFile projectName runtimeKeys).otherFileSets ≠ ∅

end

/-- What an update reads of a stack are the file sets of its project. -/
theorem composeRuntimeFileSets_eq (stack : ComposeStack) (runtimeStates : List ComposeRuntimeServiceState) :
    composeRuntimeFileSets stack runtimeStates =
      projectRuntimeFileSets (stack.projectDirectory.getD stack.directory) stack.file stack.projectName
        (runtimeStates.map (·.1)) := rfl

/-! What the classification says of each container -/

/-- The sets found among the file sets of some containers. -/
structure RuntimeFileSets.Classifies (expected : Finset Str) (found : List (Finset Str)) (sets : RuntimeFileSets) :
    Prop where
  started : sets.startedFromDiscoveredFile = true ↔ expected ∈ found
  extra : ∀ path, path ∈ sets.supersetExtra ↔ ∃ paths ∈ found, expected ⊂ paths ∧ path ∈ paths \ expected
  other : ∀ paths, paths ∈ sets.otherFileSets ↔ paths ∈ found ∧ paths ≠ expected ∧ ¬ expected ⊂ paths

theorem RuntimeFileSets.Classifies.add {expected : Finset Str} {found : List (Finset Str)} {sets : RuntimeFileSets}
    (h : sets.Classifies expected found) (paths : Finset Str) :
    (sets.add expected paths).Classifies expected (found ++ [paths]) := by
  unfold RuntimeFileSets.add
  split
  · rename_i heq
    subst heq
    refine ⟨by simp,?_,?_⟩
    · intro path
      rw [h.extra]
      simp [or_and_right,exists_or]
    · intro other
      rw [h.other]
      simp
      tauto
  · rename_i hne
    split
    · rename_i hsuper
      refine ⟨?_,?_,?_⟩
      · rw [h.started]
        simp [Ne.symm hne]
      · intro path
        simp only [Finset.mem_union,h.extra,List.mem_append,List.mem_singleton]
        constructor
        · rintro (⟨other,ho,hpath⟩ | hpath)
          · exact ⟨other,.inl ho,hpath⟩
          · exact ⟨paths,.inr rfl,hsuper,hpath⟩
        · rintro ⟨other,ho | rfl,hpath⟩
          · exact .inl ⟨other,ho,hpath⟩
          · exact .inr hpath.2
      · intro other
        simp only [h.other,List.mem_append,List.mem_singleton]
        constructor
        · exact fun ⟨ho,hrest⟩ => ⟨.inl ho,hrest⟩
        · rintro ⟨ho | rfl,hrest⟩
          · exact ⟨ho,hrest⟩
          · exact absurd hsuper hrest.2
    · rename_i hsuper
      refine ⟨?_,?_,?_⟩
      · rw [h.started]
        simp [Ne.symm hne]
      · intro path
        simp only [h.extra,List.mem_append,List.mem_singleton]
        constructor
        · exact fun ⟨other,ho,hpath⟩ => ⟨other,.inl ho,hpath⟩
        · rintro ⟨other,ho | rfl,hpath⟩
          · exact ⟨other,ho,hpath⟩
          · exact absurd hpath.1 hsuper
      · intro other
        simp only [Finset.mem_insert,h.other,List.mem_append,List.mem_singleton]
        constructor
        · rintro (rfl | ⟨ho,hrest⟩)
          · exact ⟨.inr rfl,hne,hsuper⟩
          · exact ⟨.inl ho,hrest⟩
        · rintro ⟨ho | rfl,hrest⟩
          · exact .inr ⟨ho,hrest⟩
          · exact .inl rfl

theorem RuntimeFileSets.Classifies.foldl {expected : Finset Str} {found more : List (Finset Str)}
    {sets : RuntimeFileSets} (h : sets.Classifies expected found) :
    (more.foldl (RuntimeFileSets.add expected) sets).Classifies expected (found ++ more) := by
  induction more generalizing found sets with
  | nil => simpa using h
  | cons paths more ih =>
    rw [List.foldl_cons,List.append_cons]
    exact ih (h.add paths)

theorem classifies_projectRuntimeFileSets (projectDirectory composeFile projectName : Str)
    (runtimeKeys : List ComposeRuntimeServiceKey) :
    (projectRuntimeFileSets projectDirectory composeFile projectName runtimeKeys).Classifies
      (discoveredFileSet projectDirectory composeFile projectName)
      ((runtimeKeys.filter (·.project = projectName)).map (·.paths)) := by
  have hempty : ({} : RuntimeFileSets).Classifies (discoveredFileSet projectDirectory composeFile projectName) [] :=
    ⟨by simp,by simp,by simp⟩
  exact hempty.foldl

theorem mem_composeRuntimeExtraConfigFiles {sets : RuntimeFileSets} {known : List (Finset Str)} {path : Str} :
    path ∈ composeRuntimeExtraConfigFiles sets known ↔ path ∈ sets.supersetExtra ∨
      ∃ paths ∈ sets.otherFileSets, path ∈ paths ∧
        (sets.startedFromDiscoveredFile = false ∨ ∀ knownPaths ∈ known, ¬ knownPaths ⊆ paths) := by
  simp only [composeRuntimeExtraConfigFiles,Finset.mem_union,Finset.mem_sup,Finset.mem_filter,id,Bool.or_eq_true,
    Bool.not_eq_true',List.any_eq_false,decide_eq_true_eq]
  apply or_congr_right
  constructor
  · rintro ⟨paths,⟨hother,hreported⟩,hpath⟩
    exact ⟨paths,hother,hpath,hreported⟩
  · rintro ⟨paths,hother,hpath,hreported⟩
    exact ⟨paths,⟨hother,hreported⟩,hpath⟩

/-- What it means that no file is reported, for the file sets of a project's containers. -/
theorem RuntimeFileSets.Classifies.of_extra_eq_empty {expected : Finset Str} {found known : List (Finset Str)}
    {sets : RuntimeFileSets} (h : sets.Classifies expected found)
    (hextra : composeRuntimeExtraConfigFiles sets known = ∅) {paths : Finset Str} (hpaths : paths ∈ found)
    (hne : paths ≠ expected) : paths ∈ sets.otherFileSets ∧
      (paths ≠ ∅ → expected ∈ found ∧ ∃ knownPaths ∈ known, knownPaths ⊆ paths) := by
  have hnone (path : Str) : path ∉ composeRuntimeExtraConfigFiles sets known := hextra ▸ Finset.notMem_empty path
  have hother : paths ∈ sets.otherFileSets := by
    refine (h.other paths).mpr ⟨hpaths,hne,?_⟩
    intro hsuper
    obtain ⟨path,hpath,hnew⟩ := Finset.exists_of_ssubset hsuper
    apply hnone path
    exact mem_composeRuntimeExtraConfigFiles.mpr
      (.inl ((h.extra path).mpr ⟨paths,hpaths,hsuper,Finset.mem_sdiff.mpr ⟨hpath,hnew⟩⟩))
  refine ⟨hother,?_⟩
  intro hsome
  obtain ⟨path,hpath⟩ := Finset.nonempty_iff_ne_empty.mpr hsome
  have htolerated := mt (fun hreported => mem_composeRuntimeExtraConfigFiles.mpr
    (.inr ⟨paths,hother,hpath,hreported⟩)) (hnone path)
  rw [not_or,Bool.not_eq_false] at htolerated
  refine ⟨h.started.mp htolerated.1,?_⟩
  by_contra hunknown
  exact htolerated.2 fun knownPaths hk hsub => hunknown ⟨knownPaths,hk,hsub⟩

theorem RuntimeFileSets.Classifies.exists_other {expected : Finset Str} {found : List (Finset Str)}
    {sets : RuntimeFileSets} (h : sets.Classifies expected found) (hshared : sets.otherFileSets ≠ ∅) :
    ∃ paths ∈ found, paths ≠ expected := by
  obtain ⟨paths,hother⟩ := Finset.nonempty_iff_ne_empty.mpr hshared
  obtain ⟨hfound,hne,-⟩ := (h.other paths).mp hother
  exact ⟨paths,hfound,hne⟩

/-- Where nothing is reported, containers of one file set run from the discovered file; of several file sets, one
is the discovered file and the others belong to discovered stacks. -/
theorem RuntimeFileSets.Classifies.safe {expected : Finset Str} {found known : List (Finset Str)}
    {sets : RuntimeFileSets} (h : sets.Classifies expected found)
    (hextra : composeRuntimeExtraConfigFiles sets known = ∅) :
    (sets.otherFileSets = ∅ → ∀ paths ∈ found, paths = expected) ∧
      (sets.otherFileSets ≠ ∅ → (∀ paths ∈ found, paths ≠ ∅) →
        expected ∈ found ∧ ∀ paths ∈ found, paths ≠ expected → ∃ knownPaths ∈ known, knownPaths ⊆ paths) := by
  constructor
  · intro hshared paths hpaths
    by_contra hne
    have hother := (h.of_extra_eq_empty hextra hpaths hne).1
    exact Finset.notMem_empty _ (hshared ▸ hother)
  · intro hshared hnonempty
    have hforeign {paths : Finset Str} (hpaths : paths ∈ found) (hne : paths ≠ expected) :=
      (h.of_extra_eq_empty hextra hpaths hne).2 (hnonempty paths hpaths)
    obtain ⟨paths,hpaths,hne⟩ := h.exists_other hshared
    exact ⟨(hforeign hpaths hne).1,fun paths hpaths hne => (hforeign hpaths hne).2⟩

/-- Where nothing is reported, a project that is not shared runs from the discovered file alone; a shared one, with
containers that all name their files, runs from it too and otherwise from file sets of discovered stacks. -/
theorem orphan_removal_safe (projectDirectory composeFile projectName : Str)
    (runtimeKeys : List ComposeRuntimeServiceKey) (knownFileSets : List (Finset Str))
    (h : runtimeExtraConfigFiles projectDirectory composeFile projectName runtimeKeys knownFileSets = ∅) :
    (composeRuntimeProjectShared projectDirectory composeFile projectName runtimeKeys = false →
      ∀ key ∈ runtimeKeys, key.project = projectName →
        key.paths = discoveredFileSet projectDirectory composeFile projectName) ∧
    (composeRuntimeProjectShared projectDirectory composeFile projectName runtimeKeys = true →
      (∀ key ∈ runtimeKeys, key.project = projectName → key.paths ≠ ∅) →
        (∃ key ∈ runtimeKeys, key.project = projectName ∧
          key.paths = discoveredFileSet projectDirectory composeFile projectName) ∧
        ∀ key ∈ runtimeKeys, key.project = projectName →
          key.paths ≠ discoveredFileSet projectDirectory composeFile projectName →
            ∃ knownPaths ∈ knownFileSets, knownPaths ⊆ key.paths) := by
  have hsets := classifies_projectRuntimeFileSets projectDirectory composeFile projectName runtimeKeys
  have hfound {paths : Finset Str} : paths ∈ (runtimeKeys.filter (·.project = projectName)).map (·.paths) ↔
      ∃ key ∈ runtimeKeys, key.project = projectName ∧ key.paths = paths := by
    simp [and_assoc]
  obtain ⟨halone,hshared⟩ := hsets.safe h
  constructor
  · intro hs key hkey hproject
    rw [composeRuntimeProjectShared,decide_eq_false_iff_not,not_not] at hs
    exact halone hs _ (hfound.mpr ⟨key,hkey,hproject,rfl⟩)
  · intro hs hnonempty
    rw [composeRuntimeProjectShared,decide_eq_true_iff] at hs
    have hall : ∀ paths ∈ (runtimeKeys.filter (·.project = projectName)).map (·.paths), paths ≠ ∅ := by
      intro paths hpaths
      obtain ⟨key,hkey,hproject,rfl⟩ := hfound.mp hpaths
      exact hnonempty key hkey hproject
    obtain ⟨hstarted,hknown⟩ := hshared hs hall
    exact ⟨hfound.mp hstarted,fun key hkey hproject => hknown _ (hfound.mpr ⟨key,hkey,hproject,rfl⟩)⟩

namespace Example

def sharedDirectory : Str := "/srv/app".toList

def sharedKey (directory : String) : ComposeRuntimeServiceKey :=
  composeRuntimeServiceKey directory.toList "compose.yml".toList "app".toList "web".toList

/-- Two stacks of one project name, both discovered. -/
theorem shared_project_safe :
    (∃ key ∈ [sharedKey "/srv/app",sharedKey "/srv/other"], key.project = "app".toList ∧
      key.paths = discoveredFileSet sharedDirectory "compose.yml".toList "app".toList) ∧
    ∀ key ∈ [sharedKey "/srv/app",sharedKey "/srv/other"], key.project = "app".toList →
      key.paths ≠ discoveredFileSet sharedDirectory "compose.yml".toList "app".toList →
        ∃ knownPaths ∈ [(sharedKey "/srv/other").paths], knownPaths ⊆ key.paths :=
  (orphan_removal_safe sharedDirectory "compose.yml".toList "app".toList _ [(sharedKey "/srv/other").paths]
    (by decide +kernel)).2 (by decide +kernel) (by decide +kernel)

/-- A container that names no file is not reported, though no container runs from the discovered one. -/
theorem empty_file_set_hidden :
    ∃ runtimeKeys : List ComposeRuntimeServiceKey,
      runtimeExtraConfigFiles sharedDirectory "compose.yml".toList "app".toList runtimeKeys [] = ∅ ∧
      composeRuntimeProjectShared sharedDirectory "compose.yml".toList "app".toList runtimeKeys = true ∧
      ¬ ∃ key ∈ runtimeKeys, key.paths = discoveredFileSet sharedDirectory "compose.yml".toList "app".toList :=
  ⟨[⟨∅,"app".toList,"web".toList⟩],by decide +kernel,by decide +kernel,by decide +kernel⟩

end Example

/-! Containers of the host name their files -/

theorem paths_ne_empty_of_fields {rules : CaseRules} {workingDir configFiles project service oneoff : Str}
    {key : ComposeRuntimeServiceKey}
    (h : composeRuntimeServiceKeyFromFields rules workingDir configFiles project service oneoff = some key) :
    key.paths ≠ ∅ := by
  unfold composeRuntimeServiceKeyFromFields at h
  split at h
  · cases h
  · split at h
    · cases h
    · obtain ⟨paths,hpaths,rfl⟩ := Option.map_eq_some_iff.mp h
      unfold composeRuntimeConfigPaths at hpaths
      split at hpaths
      · cases hpaths
      · cases hpaths
      · rename_i found hne _
        cases hpaths
        intro hempty
        exact hne (List.toFinset_eq_empty_iff found |>.mp hempty)

theorem paths_ne_empty_of_rows {rules : CaseRules} {rows : List Str} :
    ∀ key ∈ composeRuntimeServiceKeys rules rows, key.paths ≠ ∅ := by
  intro key hkey
  obtain ⟨row,-,hrow⟩ := List.mem_filterMap.mp hkey
  unfold composeRuntimeKeyFromRow at hrow
  split at hrow
  · exact paths_ne_empty_of_fields hrow
  · cases hrow

theorem paths_ne_empty_of_states {rules : CaseRules} {rows : List Str} :
    ∀ state ∈ composeRuntimeServiceStates rules rows, state.1.paths ≠ ∅ := by
  intro state hstate
  obtain ⟨row,-,hrow⟩ := List.mem_filterMap.mp hstate
  unfold composeRuntimeServiceState at hrow
  split at hrow
  · dsimp only at hrow
    split at hrow
    · cases hrow
    · obtain ⟨key,hkey,rfl⟩ := Option.map_eq_some_iff.mp hrow
      exact paths_ne_empty_of_fields hkey
  · cases hrow

/-- An update that goes on and removes orphans recreates a project whose containers all came from its file; one that
keeps them shares the project with discovered stacks. -/
theorem file_sets_of_update {discovered : List ComposeStack} {stack : ComposeStack} {services : List Str}
    {rules : CaseRules} {rows : List Str} {keepOrphans : Bool}
    (h : composeFileSetRefusal discovered stack services (composeRuntimeServiceStates rules rows) = .ok keepOrphans) :
    (keepOrphans = false → ∀ state ∈ composeRuntimeServiceStates rules rows, state.1.project = stack.projectName →
      state.1.paths = (stack.runtimeKey []).paths) ∧
    (keepOrphans = true → ∀ state ∈ composeRuntimeServiceStates rules rows, state.1.project = stack.projectName →
      state.1.paths ≠ (stack.runtimeKey []).paths →
        ∃ other ∈ discovered, other.projectName = stack.projectName ∧
          (other.runtimeKey []).paths ⊆ state.1.paths) := by
  have hsets := classifies_projectRuntimeFileSets (stack.projectDirectory.getD stack.directory) stack.file
    stack.projectName ((composeRuntimeServiceStates rules rows).map (·.1))
  rw [← composeRuntimeFileSets_eq] at hsets
  have hfound {paths : Finset Str} : paths ∈ (((composeRuntimeServiceStates rules rows).map (·.1)).filter
      (·.project = stack.projectName)).map (·.paths) ↔
        ∃ state ∈ composeRuntimeServiceStates rules rows, state.1.project = stack.projectName ∧
          state.1.paths = paths := by
    simp [and_assoc]
  have hall : ∀ paths ∈ (((composeRuntimeServiceStates rules rows).map (·.1)).filter
      (·.project = stack.projectName)).map (·.paths), paths ≠ ∅ := by
    intro paths hpaths
    obtain ⟨state,hstate,-,rfl⟩ := hfound.mp hpaths
    exact paths_ne_empty_of_states state hstate
  unfold composeFileSetRefusal at h
  dsimp only at h
  split at h
  · cases h
  · rename_i hextra
    rw [not_not] at hextra
    obtain ⟨halone,hshared⟩ := hsets.safe hextra
    cases h
    constructor
    · intro hs state hstate hproject
      rw [decide_eq_false_iff_not,not_not] at hs
      exact halone hs _ (hfound.mpr ⟨state,hstate,hproject,rfl⟩)
    · intro hs state hstate hproject hne
      rw [decide_eq_true_iff] at hs
      obtain ⟨knownPaths,hk,hsub⟩ := (hshared hs hall).2 _ (hfound.mpr ⟨state,hstate,hproject,rfl⟩) hne
      obtain ⟨other,ho,rfl⟩ := List.mem_map.mp hk
      obtain ⟨ho,hname⟩ := List.mem_filter.mp ho
      exact ⟨other,ho,of_decide_eq_true hname,hsub⟩

end Wudup

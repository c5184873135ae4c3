import Wudup.ExclusionReplay
import Wudup.Library.Traverse

/-! The plan of the tags to exclude: which services each line of the todo file is written for, and what
becomes of lines that ask for the same. -/
namespace Wudup
open Library

/-- What an error of a rewrite says; other errors are not caught. -/
def RewriteError.message : RewriteError → Option Str
  | .composeTagRewrite message => some message.toList
  | .labelRewriteApprovalRequired service labelKey currentLabelValue _ _ proposedLabelRegex =>
    some ("Service ".toList ++ service ++ ' ' :: labelKey ++ " is \"".toList ++ currentLabelValue ++
      ("\"; this may be a custom regex or non-matching tag and needs approval before " ++
        "replacing it with \"").toList ++ proposedLabelRegex ++ "\".".toList)
  | .resolvedTagMarkerConflict service tags =>
    some ("Service ".toList ++ service ++ " has conflicting resolved-tag markers: ".toList ++
      ", ".toList.intercalate tags ++ ".".toList)
  | .indexError => none

/-- What the labels are rendered from: the Compose files and the recorded rules. -/
structure ExclusionHost where
  yaml : YamlLibrary
  source : ComposeStack → Str
  rules : List TagExclusionRule

def tagExclusionUpdatesByStack (updates : List TagExclusionUpdate) : List (ComposeStack × List TagExclusionUpdate) :=
  (orderedUnique (updates.map (·.stack))).map fun stack => (stack,updates.filter (·.stack = stack))

/-- The updates of all services that use a repository. -/
def tagExclusionRepoUpdates (composeStacks : List ComposeStack) (imageRepo tag : Str) (sourceLine : ℕ) :
    List TagExclusionUpdate :=
  composeStacks.flatMap fun stack =>
    (stack.serviceImages.filter fun item => repoKey item.image = imageRepo).map fun item =>
      { stack, service := item.service, image := item.image, imageRepo, tag, sourceLine, scope := .imageRepo }

def serviceUpdate (lineNo : ℕ) (m : Match) : TagExclusionUpdate where
  stack := m.stack
  service := m.service
  image := m.composeImage
  imageRepo := repoKey m.composeImage
  tag := m.target.desiredTag
  sourceLine := lineNo
  scope := .service

/-- The updates of the services that one line matches. -/
def serviceUpdates (lineMatches : List Match) (lineNo : ℕ) : List TagExclusionUpdate :=
  lineMatches.map (serviceUpdate lineNo)

def exclusionKey (update : TagExclusionUpdate) : ℕ × Str × Str × Str × ExclusionScope :=
  (update.stack.index,update.service,update.imageRepo,update.tag,update.scope)

def ExclusionScope.text : ExclusionScope → Str
  | .imageRepo => "image_repo".toList
  | .service => "service".toList

def exclusionSortKey (update : TagExclusionUpdate) : ℕ ×ₗ Str ×ₗ Str ×ₗ Str ×ₗ Str :=
  toLex (update.stack.index,toLex (update.service,toLex (update.imageRepo,toLex (update.tag,update.scope.text))))

/-- Of the updates with one key the first is kept, whatever line it came from. -/
def uniqueTagExclusionUpdates (updates : List TagExclusionUpdate) : List TagExclusionUpdate :=
  Keyed.sortedBy exclusionSortKey (freshBy exclusionKey [] updates)

/-- The matches of the updates that are left. -/
def tagExclusionPreflightMatches (found : List Match) (updates : List TagExclusionUpdate) : List Match :=
  let keys := updates.map fun update => (update.stack.index,update.service,update.sourceLine)
  found.filter fun m => keys.contains (m.stack.index,m.service,m.target.lineNo)

/-- Why a line is not written. -/
inductive ExclusionFailure where
  | serviceUnmapped
  | composeLabelUnsupported
  deriving DecidableEq, Repr

namespace ExclusionHost
variable (host : ExclusionHost)

/-- Why the labels can not be rendered; empty when they can. -/
def tagExclusionRewriteError (updates : List TagExclusionUpdate) : Rewrite Str :=
  match (tagExclusionUpdatesByStack updates).forM fun (stack,stackUpdates) => do
      let _ ← renderComposeTagExclusions host.yaml (host.source stack) stackUpdates
        (existingExactTagExclusions host.rules stackUpdates) with
  | .ok _ => .ok []
  | .error e => match e.message with
    | none => .error e
    | some [] => .ok "the Compose labels cannot be rewritten safely.".toList
    | some message => .ok message

/-- The updates of one line: for its whole repository, or else for the services it matches. -/
def planLine (composeStacks : List ComposeStack) (found : List Match) (lineNo : ℕ) :
    Rewrite (Except (WudTarget × ExclusionFailure) (List TagExclusionUpdate)) :=
  match found.filter (·.target.lineNo = lineNo) with
  | [] => .ok (.ok [])
  | first :: rest => do
    if (first :: rest).any (·.service = []) then return .error (first.target,.serviceUnmapped)
    else
      let repoUpdates := tagExclusionRepoUpdates composeStacks (repoKey first.composeImage) first.target.desiredTag lineNo
      let repoReason ← host.tagExclusionRewriteError repoUpdates
      if repoUpdates ≠ [] ∧ repoReason = [] then return .ok repoUpdates
      else
        let reason ← host.tagExclusionRewriteError (serviceUpdates (first :: rest) lineNo)
        if reason ≠ [] then return .error (first.target,.composeLabelUnsupported)
        else return .ok (serviceUpdates (first :: rest) lineNo)

/-- The matched lines, in order. -/
def matchedLines (found : List Match) : List ℕ :=
  (orderedUnique (found.map (·.target.lineNo))).insertionSort (· ≤ ·)

def planTagExclusions (found : List Match) (composeStacks : List ComposeStack) :
    Rewrite (List TagExclusionUpdate × List (WudTarget × ExclusionFailure)) := do
  let planned ← (matchedLines found).mapM (host.planLine composeStacks found)
  return (uniqueTagExclusionUpdates (planned.flatMap fun line => line.toOption.getD []),
    planned.filterMap fun line => match line with
      | .error failure => some failure
      | .ok _ => none)

variable {host} {composeStacks : List ComposeStack} {found : List Match}

/-! What a line asks for -/

def lineMatches (found : List Match) (lineNo : ℕ) : List Match := found.filter (·.target.lineNo = lineNo)

/-- The repository and the tag of a line's first match. -/
def lineRequest (found : List Match) (lineNo : ℕ) : Option (Str × Str) :=
  (lineMatches found lineNo).head?.map fun m => (repoKey m.composeImage,m.target.desiredTag)

variable (host composeStacks found) in
/-- The line can be written for every service of its repository. -/
def WritesRepository (lineNo : ℕ) : Prop :=
  (∀ m ∈ lineMatches found lineNo, m.service ≠ []) ∧ ∃ request, lineRequest found lineNo = some request ∧
    tagExclusionRepoUpdates composeStacks request.1 request.2 lineNo ≠ [] ∧
    host.tagExclusionRewriteError (tagExclusionRepoUpdates composeStacks request.1 request.2 lineNo) = .ok []

variable (host composeStacks found) in
/-- The line can only be written for the services it matches. -/
def WritesServices (lineNo : ℕ) : Prop :=
  (∀ m ∈ lineMatches found lineNo, m.service ≠ []) ∧ ¬ host.WritesRepository composeStacks found lineNo ∧
    host.tagExclusionRewriteError (serviceUpdates (lineMatches found lineNo) lineNo) = .ok []

/-- Two matches whose services are to exclude the same tag of one repository. -/
def SameRequest (m n : Match) : Prop :=
  m.stack.index = n.stack.index ∧ m.service = n.service ∧ repoKey m.composeImage = repoKey n.composeImage ∧
    m.target.desiredTag = n.target.desiredTag

variable (host composeStacks found) in
/-- Earlier lines ask for all that the line asks for. -/
def Merged (lineNo : ℕ) : Prop :=
  host.WritesRepository composeStacks found lineNo ∧
      (∃ earlier ∈ matchedLines found, earlier < lineNo ∧ host.WritesRepository composeStacks found earlier ∧
        lineRequest found earlier = lineRequest found lineNo) ∨
    host.WritesServices composeStacks found lineNo ∧
      ∀ m ∈ lineMatches found lineNo, ∃ earlier ∈ matchedLines found, earlier < lineNo ∧
        host.WritesServices composeStacks found earlier ∧ ∃ n ∈ lineMatches found earlier, SameRequest n m

theorem mem_matchedLines {lineNo : ℕ} : lineNo ∈ matchedLines found ↔ lineMatches found lineNo ≠ [] := by
  rw [matchedLines,List.mem_insertionSort,mem_orderedUnique,lineMatches,ne_eq,List.filter_eq_nil_iff]
  simp

theorem pairwise_matchedLines : (matchedLines found).Pairwise (· < ·) :=
  Keyed.pairwise_insertionSort_of_nodup (nodup_orderedUnique _)

/-- What becomes of a matched line. -/
theorem planLine_cases {lineNo : ℕ} (hline : lineNo ∈ matchedLines found)
    {result : Except (WudTarget × ExclusionFailure) (List TagExclusionUpdate)}
    (h : host.planLine composeStacks found lineNo = .ok result) :
    (∃ target failure, result = .error (target,failure) ∧ target.lineNo = lineNo ∧
      ¬ host.WritesRepository composeStacks found lineNo ∧ ¬ host.WritesServices composeStacks found lineNo) ∨
    (∃ request, lineRequest found lineNo = some request ∧ host.WritesRepository composeStacks found lineNo ∧
      result = .ok (tagExclusionRepoUpdates composeStacks request.1 request.2 lineNo)) ∨
    host.WritesServices composeStacks found lineNo ∧
      result = .ok (serviceUpdates (lineMatches found lineNo) lineNo) := by
  have hne := mem_matchedLines.mp hline
  obtain ⟨first,rest,hsplit⟩ := List.exists_cons_of_ne_nil hne
  have hfirst : first.target.lineNo = lineNo := by
    have hmem : first ∈ lineMatches found lineNo := hsplit ▸ List.mem_cons_self
    exact of_decide_eq_true (List.mem_filter.mp hmem).2
  have hrequest : lineRequest found lineNo = some (repoKey first.composeImage,first.target.desiredTag) := by
    rw [lineRequest,hsplit]
    rfl
  have hfilter : found.filter (·.target.lineNo = lineNo) = first :: rest := hsplit
  rw [planLine,hfilter] at h
  dsimp only at h
  by_cases hmapped : (first :: rest).any (·.service = []) = true
  · rw [if_pos hmapped] at h
    cases h
    obtain ⟨m,hm,hservice⟩ := List.any_eq_true.mp hmapped
    have hunknown : ¬ ∀ m ∈ lineMatches found lineNo, m.service ≠ [] := by
      intro hall
      exact hall m (hsplit ▸ hm) (of_decide_eq_true hservice)
    exact .inl ⟨_,_,rfl,hfirst,fun hw => hunknown hw.1,fun hw => hunknown hw.1⟩
  · rw [if_neg hmapped] at h
    have hknown : ∀ m ∈ lineMatches found lineNo, m.service ≠ [] := by
      intro m hm hservice
      exact hmapped (List.any_eq_true.mpr ⟨m,hsplit ▸ hm,decide_eq_true hservice⟩)
    obtain ⟨repoReason,hrepo,h⟩ := bind_eq_ok.mp h
    by_cases hwritten : tagExclusionRepoUpdates composeStacks (repoKey first.composeImage) first.target.desiredTag
        lineNo ≠ [] ∧ repoReason = []
    · rw [if_pos hwritten] at h
      cases h
      rw [hwritten.2] at hrepo
      exact .inr (.inl ⟨_,hrequest,⟨hknown,_,hrequest,hwritten.1,hrepo⟩,rfl⟩)
    · rw [if_neg hwritten] at h
      have hnot : ¬ host.WritesRepository composeStacks found lineNo := by
        intro ⟨_,request,hr,hsome,hok⟩
        rw [hrequest] at hr
        cases hr
        rw [hrepo] at hok
        exact hwritten ⟨hsome,Except.ok.inj hok⟩
      obtain ⟨reason,hreason,h⟩ := bind_eq_ok.mp h
      rw [← hsplit] at hreason h
      by_cases hr : reason ≠ []
      · rw [if_pos hr] at h
        cases h
        refine .inl ⟨_,_,rfl,hfirst,hnot,?_⟩
        intro ⟨_,_,hok⟩
        rw [hreason] at hok
        exact hr (Except.ok.inj hok)
      · rw [if_neg hr] at h
        cases h
        rw [not_not.mp hr] at hreason
        exact .inr (.inr ⟨⟨hknown,hnot,hreason⟩,rfl⟩)

/-- The updates that were planned for a line, before they are made unique. -/
def plannedUpdates (planned : Except (WudTarget × ExclusionFailure) (List TagExclusionUpdate)) :
    List TagExclusionUpdate := planned.toOption.getD []

theorem sourceLine_of_planLine {lineNo : ℕ} (hline : lineNo ∈ matchedLines found)
    {result : Except (WudTarget × ExclusionFailure) (List TagExclusionUpdate)}
    (h : host.planLine composeStacks found lineNo = .ok result) {update : TagExclusionUpdate}
    (hu : update ∈ plannedUpdates result) : update.sourceLine = lineNo := by
  rcases planLine_cases hline h with ⟨target,failure,rfl,-⟩ | ⟨request,-,-,rfl⟩ | ⟨-,rfl⟩
  · cases hu
  · obtain ⟨stack,-,hu⟩ := List.mem_flatMap.mp hu
    obtain ⟨item,-,rfl⟩ := List.mem_map.mp hu
    rfl
  · obtain ⟨m,-,rfl⟩ := List.mem_map.mp hu
    rfl

/-! Keys that two lines share -/

theorem mem_tagExclusionRepoUpdates {imageRepo tag : Str} {lineNo : ℕ} {update : TagExclusionUpdate}
    (h : update ∈ tagExclusionRepoUpdates composeStacks imageRepo tag lineNo) :
    update.imageRepo = imageRepo ∧ update.tag = tag ∧ update.scope = .imageRepo := by
  obtain ⟨stack,-,h⟩ := List.mem_flatMap.mp h
  obtain ⟨item,-,rfl⟩ := List.mem_map.mp h
  exact ⟨rfl,rfl,rfl⟩

theorem keys_tagExclusionRepoUpdates (imageRepo tag : Str) (lineNo earlier : ℕ) :
    (tagExclusionRepoUpdates composeStacks imageRepo tag earlier).map exclusionKey =
      (tagExclusionRepoUpdates composeStacks imageRepo tag lineNo).map exclusionKey := by
  simp only [tagExclusionRepoUpdates,List.map_flatMap,List.map_map]
  rfl

theorem mem_serviceUpdates {members : List Match} {lineNo : ℕ} {update : TagExclusionUpdate} :
    update ∈ serviceUpdates members lineNo ↔ ∃ m ∈ members, serviceUpdate lineNo m = update := List.mem_map

theorem planLine_of_writesRepository {lineNo : ℕ} (hline : lineNo ∈ matchedLines found)
    {result : Except (WudTarget × ExclusionFailure) (List TagExclusionUpdate)}
    (h : host.planLine composeStacks found lineNo = .ok result) (hw : host.WritesRepository composeStacks found lineNo)
    {request : Str × Str} (hrequest : lineRequest found lineNo = some request) :
    result = .ok (tagExclusionRepoUpdates composeStacks request.1 request.2 lineNo) := by
  rcases planLine_cases hline h with ⟨_,_,-,-,hno,-⟩ | ⟨request',hrequest',-,he⟩ | ⟨hs,-⟩
  · exact absurd hw hno
  · rw [hrequest] at hrequest'
    cases hrequest'
    exact he
  · exact absurd hw hs.2.1

theorem planLine_of_writesServices {lineNo : ℕ} (hline : lineNo ∈ matchedLines found)
    {result : Except (WudTarget × ExclusionFailure) (List TagExclusionUpdate)}
    (h : host.planLine composeStacks found lineNo = .ok result) (hw : host.WritesServices composeStacks found lineNo) :
    result = .ok (serviceUpdates (lineMatches found lineNo) lineNo) := by
  rcases planLine_cases hline h with ⟨_,_,-,-,-,hno⟩ | ⟨_,-,hrepo,-⟩ | ⟨-,he⟩
  · exact absurd hw hno
  · exact absurd hrepo hw.2.1
  · exact he

/-- An update that was planned is one of the line's repository, or of a service that it matches. -/
theorem planned_of_planLine {lineNo : ℕ} (hline : lineNo ∈ matchedLines found)
    {result : Except (WudTarget × ExclusionFailure) (List TagExclusionUpdate)}
    (h : host.planLine composeStacks found lineNo = .ok result) {update : TagExclusionUpdate}
    (hu : update ∈ plannedUpdates result) :
    (host.WritesRepository composeStacks found lineNo ∧ update.scope = .imageRepo ∧
      lineRequest found lineNo = some (update.imageRepo,update.tag)) ∨
    host.WritesServices composeStacks found lineNo ∧
      ∃ m ∈ lineMatches found lineNo, serviceUpdate lineNo m = update := by
  rcases planLine_cases hline h with ⟨_,_,rfl,-⟩ | ⟨request,hrequest,hw,rfl⟩ | ⟨hw,rfl⟩
  · cases hu
  · obtain ⟨hrepo,htag,hscope⟩ := mem_tagExclusionRepoUpdates hu
    refine .inl ⟨hw,hscope,?_⟩
    rw [hrepo,htag]
    exact hrequest
  · exact .inr ⟨hw,mem_serviceUpdates.mp hu⟩

section
variable {lineNo : ℕ} {results : ℕ → Except (WudTarget × ExclusionFailure) (List TagExclusionUpdate)}
  (hr : ∀ n ∈ matchedLines found, host.planLine composeStacks found n = .ok (results n))
include hr

/-- The updates of a repository are new when no earlier line asks for the same. -/
theorem newRepositoryKey_iff {request : Str × Str} (hrequest : lineRequest found lineNo = some request)
    (hsome : tagExclusionRepoUpdates composeStacks request.1 request.2 lineNo ≠ []) :
    (∃ u ∈ tagExclusionRepoUpdates composeStacks request.1 request.2 lineNo,
      ∀ earlier ∈ matchedLines found, earlier < lineNo →
        ∀ v ∈ plannedUpdates (results earlier), exclusionKey v ≠ exclusionKey u) ↔
      ¬ ∃ earlier ∈ matchedLines found, earlier < lineNo ∧ host.WritesRepository composeStacks found earlier ∧
        lineRequest found earlier = lineRequest found lineNo := by
  constructor
  · rintro ⟨u,hu,hnew⟩ ⟨earlier,hearlier,hlt,hwrites,hsame⟩
    have hother := planLine_of_writesRepository hearlier (hr earlier hearlier) hwrites (hsame.trans hrequest)
    have hkey : exclusionKey u ∈
        (tagExclusionRepoUpdates composeStacks request.1 request.2 earlier).map exclusionKey := by
      rw [keys_tagExclusionRepoUpdates request.1 request.2 lineNo earlier]
      exact List.mem_map_of_mem hu
    obtain ⟨v,hv,hvu⟩ := List.mem_map.mp hkey
    exact hnew earlier hearlier hlt v (by rw [hother]; exact hv) hvu
  · intro hnone
    obtain ⟨u,rest,hu⟩ := List.exists_cons_of_ne_nil hsome
    have hu : u ∈ tagExclusionRepoUpdates composeStacks request.1 request.2 lineNo := hu ▸ List.mem_cons_self
    obtain ⟨hrepo,htag,hscope⟩ := mem_tagExclusionRepoUpdates hu
    refine ⟨u,hu,?_⟩
    intro earlier hearlier hlt v hv hkey
    simp only [exclusionKey,Prod.mk.injEq] at hkey
    obtain ⟨-,-,hrepo',htag',hscope'⟩ := hkey
    obtain ⟨hw,-,hrequest'⟩ | ⟨-,m,-,rfl⟩ := planned_of_planLine hearlier (hr earlier hearlier) hv
    · apply hnone
      refine ⟨earlier,hearlier,hlt,hw,?_⟩
      rw [hrequest',hrequest,hrepo',hrepo,htag',htag]
    · rw [hscope] at hscope'
      cases hscope'

/-- The updates of services are not all old when one of them is asked for by no earlier line. -/
theorem newServiceKey_iff : (∃ u ∈ serviceUpdates (lineMatches found lineNo) lineNo,
      ∀ earlier ∈ matchedLines found, earlier < lineNo →
        ∀ v ∈ plannedUpdates (results earlier), exclusionKey v ≠ exclusionKey u) ↔
      ¬ ∀ m ∈ lineMatches found lineNo, ∃ earlier ∈ matchedLines found, earlier < lineNo ∧
        host.WritesServices composeStacks found earlier ∧ ∃ n ∈ lineMatches found earlier, SameRequest n m := by
  constructor
  · rintro ⟨u,hu,hnew⟩ hall
    obtain ⟨m,hm,rfl⟩ := mem_serviceUpdates.mp hu
    obtain ⟨earlier,hearlier,hlt,hwrites,n,hn,hsame⟩ := hall m hm
    have hother := planLine_of_writesServices hearlier (hr earlier hearlier) hwrites
    refine hnew earlier hearlier hlt (serviceUpdate earlier n) ?_ ?_
    · rw [hother]
      exact mem_serviceUpdates.mpr ⟨n,hn,rfl⟩
    · simp only [exclusionKey,serviceUpdate,hsame.1,hsame.2.1,hsame.2.2.1,hsame.2.2.2]
  · intro hnone
    push Not at hnone
    obtain ⟨m,hm,hnone⟩ := hnone
    refine ⟨serviceUpdate lineNo m,mem_serviceUpdates.mpr ⟨m,hm,rfl⟩,?_⟩
    intro earlier hearlier hlt v hv hkey
    obtain ⟨-,hscope,-⟩ | ⟨hw,n,hn,rfl⟩ := planned_of_planLine hearlier (hr earlier hearlier) hv
    · simp only [exclusionKey,serviceUpdate,Prod.mk.injEq,hscope,reduceCtorEq,and_false] at hkey
    · simp only [exclusionKey,serviceUpdate,Prod.mk.injEq,and_true] at hkey
      exact hnone earlier hearlier hlt hw n hn hkey

/-- A line keeps an update of its own exactly when it is not merged into earlier ones. -/
theorem newKey_iff (hline : lineNo ∈ matchedLines found) {updates : List TagExclusionUpdate}
    (hok : results lineNo = .ok updates) :
    (∃ u ∈ plannedUpdates (results lineNo), ∀ earlier ∈ matchedLines found, earlier < lineNo →
        ∀ v ∈ plannedUpdates (results earlier), exclusionKey v ≠ exclusionKey u) ↔
      ¬ host.Merged composeStacks found lineNo := by
  rcases planLine_cases hline (hr lineNo hline) with ⟨_,_,he,-⟩ | ⟨request,hrequest,hwrites,he⟩ | ⟨hwrites,he⟩
  · rw [he] at hok
    cases hok
  · have hservices : ¬ host.WritesServices composeStacks found lineNo := fun h => h.2.1 hwrites
    rw [Merged,and_iff_right hwrites,or_iff_left (fun h => hservices h.1),he]
    obtain ⟨-,request',hrequest',hsome,-⟩ := hwrites
    rw [hrequest] at hrequest'
    cases hrequest'
    exact newRepositoryKey_iff hr hrequest hsome
  · rw [Merged,or_iff_right (fun h => hwrites.2.1 h.1),and_iff_right hwrites,he]
    exact newServiceKey_iff hr

end

/-! Whole plans -/

/-- The lines of a plan one by one. -/
theorem planTagExclusions_ok {updates : List TagExclusionUpdate} {failures : List (WudTarget × ExclusionFailure)}
    (h : host.planTagExclusions found composeStacks = .ok (updates,failures)) :
    ∃ results : ℕ → Except (WudTarget × ExclusionFailure) (List TagExclusionUpdate),
      (∀ n ∈ matchedLines found, host.planLine composeStacks found n = .ok (results n)) ∧
      (∀ u, u ∈ updates ↔
        u ∈ freshBy exclusionKey [] ((matchedLines found).flatMap fun n => plannedUpdates (results n))) ∧
      ∀ failure, failure ∈ failures ↔ ∃ n ∈ matchedLines found, results n = .error failure := by
  obtain ⟨planned,hplanned,h⟩ := bind_eq_ok.mp h
  have hall := mapM_eq_ok.mp hplanned
  let results : ℕ → Except (WudTarget × ExclusionFailure) (List TagExclusionUpdate) := fun n =>
    (host.planLine composeStacks found n).toOption.getD (.ok [])
  have hresults : planned = (matchedLines found).map results := by
    have hmap := congrArg (List.map fun r : Rewrite _ => r.toOption.getD (.ok [])) hall
    rw [List.map_map,List.map_map] at hmap
    rw [← List.map_id planned]
    exact hmap.symm
  refine ⟨results,?_,?_,?_⟩
  · intro n hn
    have hmem : host.planLine composeStacks found n ∈ planned.map .ok := hall ▸ List.mem_map_of_mem hn
    obtain ⟨r,-,hr⟩ := List.mem_map.mp hmem
    simp only [results,← hr]
    rfl
  · intro u
    cases h
    rw [uniqueTagExclusionUpdates,(Keyed.sortedBy_perm _ _).mem_iff,hresults,List.flatMap_map]
    rfl
  · intro failure
    cases h
    rw [hresults,List.filterMap_map,List.mem_filterMap]
    apply exists_congr
    intro n
    apply and_congr_right
    intro _
    change (match results n with | .error failure => some failure | .ok _ => none) = some failure ↔ _
    cases results n <;> simp

/-- What is checked before a run belongs to lines that keep an update. -/
theorem sourceLine_of_preflight {updates : List TagExclusionUpdate} {m : Match}
    (h : m ∈ tagExclusionPreflightMatches found updates) : ∃ u ∈ updates, u.sourceLine = m.target.lineNo := by
  have hkey := (List.mem_filter.mp h).2
  rw [List.contains_iff_mem] at hkey
  obtain ⟨u,hu,hkey⟩ := List.mem_map.mp hkey
  exact ⟨u,hu,congrArg (·.2.2) hkey⟩

/-- A matched line is recorded as failed or keeps an update of its own, unless earlier lines ask for all
that it asks for. -/
theorem exclusion_line_accounted_iff (host : ExclusionHost) (found : List Match) (composeStacks : List ComposeStack)
    {updates : List TagExclusionUpdate} {failures : List (WudTarget × ExclusionFailure)}
    (h : host.planTagExclusions found composeStacks = .ok (updates,failures)) {lineNo : ℕ}
    (hline : lineNo ∈ matchedLines found) :
    ((∃ failure ∈ failures, failure.1.lineNo = lineNo) ∨ ∃ u ∈ updates, u.sourceLine = lineNo) ↔
      ¬ host.Merged composeStacks found lineNo := by
  obtain ⟨results,hr,hupdates,hfailures⟩ := planTagExclusions_ok h
  obtain ⟨before,after,hsplit⟩ := List.append_of_mem hline
  have hpair : (before ++ lineNo :: after).Pairwise (· < ·) := hsplit ▸ pairwise_matchedLines
  have howner : ∀ n ∈ before ++ lineNo :: after, ∀ u ∈ plannedUpdates (results n), u.sourceLine = n := by
    intro n hn u hu
    rw [← hsplit] at hn
    exact sourceLine_of_planLine hn (hr n hn) hu
  have hbefore : ∀ n, n ∈ before ↔ n ∈ matchedLines found ∧ n < lineNo := by
    intro n
    rw [hsplit,List.mem_append,List.mem_cons]
    rw [List.pairwise_append,List.pairwise_cons] at hpair
    constructor
    · exact fun hn => ⟨.inl hn,hpair.2.2 n hn lineNo List.mem_cons_self⟩
    · rintro ⟨hn | rfl | hn,hlt⟩
      · exact hn
      · exact absurd hlt (lt_irrefl _)
      · exact absurd hlt (hpair.2.1.1 n hn).asymm
  have hfresh : (∃ u ∈ updates, u.sourceLine = lineNo) ↔ ∃ u ∈ plannedUpdates (results lineNo),
      ∀ earlier ∈ matchedLines found, earlier < lineNo →
        ∀ v ∈ plannedUpdates (results earlier), exclusionKey v ≠ exclusionKey u := by
    simp only [hupdates]
    rw [hsplit,exists_fresh_of_part hpair.nodup howner]
    simp only [hbefore,hsplit,and_imp]
  cases hresult : results lineNo with
  | error failure =>
    rcases planLine_cases hline (hr lineNo hline) with ⟨target,reason,he,htarget,hrepo,hservices⟩ | ⟨_,-,-,he⟩ | ⟨-,he⟩
    · refine iff_of_true (.inl ⟨(target,reason),(hfailures _).mpr ⟨lineNo,hline,he⟩,htarget⟩) ?_
      rintro (⟨hw,-⟩ | ⟨hw,-⟩)
      · exact hrepo hw
      · exact hservices hw
    all_goals
      rw [hresult] at he
      cases he
  | ok planned =>
    rw [← newKey_iff hr hline hresult,← hfresh]
    apply or_iff_right
    rintro ⟨failure,hfailure,hno⟩
    obtain ⟨n,hn,he⟩ := (hfailures failure).mp hfailure
    rcases planLine_cases hn (hr n hn) with ⟨target,reason,he',htarget,-⟩ | ⟨_,-,-,he'⟩ | ⟨-,he'⟩
    · rw [he] at he'
      cases he'
      rw [← htarget,hno,hresult] at he
      cases he
    all_goals
      rw [he] at he'
      cases he'

end ExclusionHost

namespace Example

/-- One of two equal lines of the todo file. -/
def appTarget (lineNo : ℕ) : WudTarget where
  lineNo := lineNo
  raw := "repo/app:1.0 tag=2.0".toList
  first := "repo/app:1.0".toList
  key := "repo/app:1.0".toList
  repo := "repo/app".toList
  hasTag := true
  allowRepo := false
  digest := []
  desiredTag := "2.0".toList

def appStack : ComposeStack :=
  { appExclusion.stack with
    images := ["repo/app:1.0".toList], serviceImages := [⟨"app".toList,"repo/app:1.0".toList,[],[]⟩] }

def appMatch (lineNo : ℕ) : Match :=
  ⟨appStack,appTarget lineNo,"repo/app:1.0".toList,"repo/app:1.0".toList,"app".toList⟩

def appHost : ExclusionHost := ⟨appYaml,fun _ => appSource "wud.tag.exclude=^beta".toList,[]⟩

/-- The second of two equal lines is neither written nor recorded as failed. -/
theorem second_line_lost :
    appHost.planTagExclusions [appMatch 1,appMatch 2] [appStack] =
        .ok ([{ appExclusion with stack := appStack }],[]) ∧
      2 ∈ ExclusionHost.matchedLines [appMatch 1,appMatch 2] ∧
      ({ appExclusion with stack := appStack } : TagExclusionUpdate).sourceLine ≠ 2 ∧
      tagExclusionPreflightMatches [appMatch 1,appMatch 2] [{ appExclusion with stack := appStack }] = [appMatch 1] := by
  decide +kernel

theorem first_line_kept : ¬ appHost.Merged [appStack] [appMatch 1,appMatch 2] 1 := by
  have hplan : appHost.planTagExclusions [appMatch 1,appMatch 2] [appStack] =
      .ok ([{ appExclusion with stack := appStack }],[]) := by decide +kernel
  have hline : 1 ∈ ExclusionHost.matchedLines [appMatch 1,appMatch 2] := by decide
  exact (ExclusionHost.exclusion_line_accounted_iff appHost _ _ hplan hline).mp
    (.inr ⟨_,List.mem_singleton_self _,rfl⟩)

end Example

end Wudup

import Mathlib.Order.MinMax
import Wudup.PendingRoundTrip

/-! What a pending line joins: the ids, the sources and the least fresh status of the containers that contribute to it,
whatever their order. -/
namespace Wudup
open Library

theorem metadataPriority_injective : Function.Injective metadataPriority := by
  intro a b h
  cases a <;> cases b <;> first | rfl | cases h

theorem metadataPriority_leastFresh (a b : PendingMetadataStatus) :
    metadataPriority (leastFreshMetadataStatus a b) = max (metadataPriority a) (metadataPriority b) := by
  rw [leastFreshMetadataStatus]
  split
  · rename_i h
    exact (max_eq_left h).symm
  · rename_i h
    exact (max_eq_right (by omega)).symm

theorem leastFresh_right_comm (a b c : PendingMetadataStatus) :
    leastFreshMetadataStatus (leastFreshMetadataStatus a b) c =
      leastFreshMetadataStatus (leastFreshMetadataStatus a c) b := by
  apply metadataPriority_injective
  simp only [metadataPriority_leastFresh]
  exact max_right_comm _ _ _

theorem leastFresh_eq_or (a b : PendingMetadataStatus) :
    leastFreshMetadataStatus a b = a ∨ leastFreshMetadataStatus a b = b := by
  rw [leastFreshMetadataStatus]
  split
  · exact .inl rfl
  · exact .inr rfl

/-- A line holds the ids and sources of its contributors, and is as fresh as the least fresh of them. -/
structure ApiPendingLine.Joins (line : ApiPendingLine) (contributes : WudApiContainer → Prop) : Prop where
  ids : ∀ id, id ∈ line.containerIds ↔ id ≠ [] ∧ ∃ c, contributes c ∧ c.id = id
  sources : ∀ source, source ∈ line.sourceIds ↔ ∃ c, contributes c ∧ containerSourceId c = source
  least : ∀ c, contributes c → metadataPriority c.metadataStatus ≤ metadataPriority line.container.metadataStatus
  attained : ∃ c, contributes c ∧ c.metadataStatus = line.container.metadataStatus

theorem mem_containerIds {c : WudApiContainer} {id : Str} : id ∈ containerIds c ↔ id ≠ [] ∧ c.id = id := by
  rw [containerIds]
  split
  · rename_i h
    rw [List.mem_singleton]
    exact ⟨fun hid => ⟨hid ▸ h,hid.symm⟩,fun hid => hid.2.symm⟩
  · rename_i h
    rw [not_not] at h
    exact ⟨fun hid => absurd hid List.not_mem_nil,fun hid => absurd (hid.2.symm.trans h) hid.1⟩

section
variable {contributes contributes' : WudApiContainer → Prop} {line merged : ApiPendingLine} {d : WudApiContainer}

theorem ApiPendingLine.Joins.congr (h : line.Joins contributes) (hc : ∀ c, contributes c ↔ contributes' c) :
    line.Joins contributes' := by
  obtain rfl : contributes = contributes' := funext fun c => propext (hc c)
  exact h

/-- Any merge that adds the ids and the source of a container and takes the less fresh status. -/
theorem joins_merge (h : line.Joins contributes)
    (hids : ∀ id, id ∈ merged.containerIds ↔ id ∈ line.containerIds ∨ id ∈ containerIds d)
    (hsources : ∀ source, source ∈ merged.sourceIds ↔ source ∈ line.sourceIds ∨ source = containerSourceId d)
    (hstatus : merged.container.metadataStatus =
      leastFreshMetadataStatus line.container.metadataStatus d.metadataStatus) :
    merged.Joins fun c => contributes c ∨ c = d := by
  refine ⟨fun id => ?_,fun source => ?_,?_,?_⟩
  · rw [hids,h.ids,mem_containerIds,← and_or_left]
    simp only [or_and_right,exists_or,exists_eq_left]
  · rw [hsources,h.sources]
    simp only [or_and_right,exists_or,exists_eq_left,@eq_comm _ source]
  · rintro c (hc | rfl)
    · rw [hstatus,metadataPriority_leastFresh]
      exact le_max_of_le_left (h.least c hc)
    · rw [hstatus,metadataPriority_leastFresh]
      exact le_max_right _ _
  · obtain hleft | hright := leastFresh_eq_or line.container.metadataStatus d.metadataStatus
    · obtain ⟨c,hc,hattained⟩ := h.attained
      exact ⟨c,.inl hc,by rw [hstatus,hleft,hattained]⟩
    · exact ⟨d,.inr rfl,by rw [hstatus,hright]⟩

theorem joins_mergeApiPendingLine (h : line.Joins contributes) :
    (mergeApiPendingLine line d).Joins fun c => contributes c ∨ c = d := by
  refine joins_merge h (fun id => ?_) (fun source => ?_) rfl
  · rw [mergeApiPendingLine]
    simp only [List.mem_append,List.mem_filter,decide_eq_true_eq]
    tauto
  · rw [mergeApiPendingLine]
    dsimp only
    split
    · rename_i hold
      exact ⟨.inl,fun hs => hs.elim id fun he => he ▸ hold⟩
    · rw [List.mem_append,List.mem_singleton]

theorem joins_mergeRelatedApiPendingLine (h : line.Joins contributes) :
    (mergeRelatedApiPendingLine line d).Joins fun c => contributes c ∨ c = d := by
  refine joins_merge h (fun id => ?_) (fun source => ?_) rfl
  · rw [mergeRelatedApiPendingLine,mem_sortedSet,List.mem_append]
  · rw [mergeRelatedApiPendingLine,mem_sortedSet,List.mem_append,List.mem_singleton]

/-- The first container of a line. -/
theorem joins_single (d : WudApiContainer) (raw : Str) :
    (ApiPendingLine.mk raw d (containerIds d) [containerSourceId d]).Joins (· = d) :=
  ⟨fun id => by simp [mem_containerIds],fun source => by simp [eq_comm],fun c hc => by rw [hc],d,rfl,rfl⟩

/-- The containers that an apply of the line would change join it. -/
theorem joins_mergeRelated {related : List WudApiContainer} (h : line.Joins contributes) :
    (mergeRelated related line).Joins
      fun c => contributes c ∨ c ∈ related ∧ containerCanShareApplyScope c line.container = true := by
  unfold mergeRelated
  induction related generalizing line contributes with
  | nil => exact h.congr fun c => by simp
  | cons d related ih =>
    rw [List.foldl_cons]
    split
    · rename_i hshare
      refine (ih (joins_mergeRelatedApiPendingLine h)).congr fun c => ?_
      have himage : containerCanShareApplyScope c (mergeRelatedApiPendingLine line d).container =
          containerCanShareApplyScope c line.container := rfl
      rw [himage,List.mem_cons]
      constructor
      · rintro ((hc | rfl) | ⟨hc,hs⟩)
        · exact .inl hc
        · exact .inr ⟨.inl rfl,hshare⟩
        · exact .inr ⟨.inr hc,hs⟩
      · rintro (hc | ⟨rfl | hc,hs⟩)
        · exact .inl (.inl hc)
        · exact .inl (.inr rfl)
        · exact .inr ⟨hc,hs⟩
    · rename_i hshare
      refine (ih h).congr fun c => ?_
      rw [List.mem_cons]
      constructor
      · rintro (hc | ⟨hc,hs⟩)
        · exact .inl hc
        · exact .inr ⟨.inr hc,hs⟩
      · rintro (hc | ⟨rfl | hc,hs⟩)
        · exact .inl hc
        · exact absurd hs hshare
        · exact .inr ⟨hc,hs⟩

/-- What no related container changes is the line's own. -/
theorem mergeRelated_keeps {β : Type} {f : ApiPendingLine → β}
    (hf : ∀ line d, f (mergeRelatedApiPendingLine line d) = f line) (related : List WudApiContainer)
    (line : ApiPendingLine) : f (mergeRelated related line) = f line := by
  unfold mergeRelated
  induction related generalizing line with
  | nil => rfl
  | cons d related ih =>
    rw [List.foldl_cons,ih]
    split
    · exact hf line d
    · rfl

theorem mergeRelated_raw (related : List WudApiContainer) (line : ApiPendingLine) :
    (mergeRelated related line).raw = line.raw := mergeRelated_keeps (fun _ _ => rfl) related line

theorem mergeRelated_image (related : List WudApiContainer) (line : ApiPendingLine) :
    (mergeRelated related line).container.image = line.container.image :=
  @mergeRelated_keeps _ (·.container.image) (fun _ _ => rfl) related line

/-- The order of the containers does not matter. -/
theorem mergeRelated_perm {related related' : List WudApiContainer} (h : related.Perm related')
    (line : ApiPendingLine) : mergeRelated related line = mergeRelated related' line := by
  have hcomm (line : ApiPendingLine) (a b : WudApiContainer) :
      mergeRelatedApiPendingLine (mergeRelatedApiPendingLine line a) b =
        mergeRelatedApiPendingLine (mergeRelatedApiPendingLine line b) a := by
    have hids : sortedSet (sortedSet (line.containerIds ++ containerIds a) ++ containerIds b) =
        sortedSet (sortedSet (line.containerIds ++ containerIds b) ++ containerIds a) :=
      sortedSet_congr fun id => by simp only [List.mem_append,mem_sortedSet,or_right_comm]
    have hsources : sortedSet (sortedSet (line.sourceIds ++ [containerSourceId a]) ++ [containerSourceId b]) =
        sortedSet (sortedSet (line.sourceIds ++ [containerSourceId b]) ++ [containerSourceId a]) :=
      sortedSet_congr fun source => by simp only [List.mem_append,mem_sortedSet,or_right_comm]
    simp only [mergeRelatedApiPendingLine]
    rw [hids,hsources,leastFresh_right_comm]
  have himage (c d : WudApiContainer) (line : ApiPendingLine) :
      containerCanShareApplyScope c (mergeRelatedApiPendingLine line d).container =
        containerCanShareApplyScope c line.container := rfl
  refine h.foldl_eq' (fun a _ b _ line => ?_) line
  by_cases ha : containerCanShareApplyScope a line.container = true
  · by_cases hb : containerCanShareApplyScope b line.container = true
    · simp only [ha,hb,himage,if_true,hcomm]
    · simp only [ha,hb,himage,if_true,if_false,Bool.false_eq_true]
  · by_cases hb : containerCanShareApplyScope b line.container = true
    · simp only [ha,hb,himage,if_true,if_false,Bool.false_eq_true]
    · simp only [ha,hb,if_false,Bool.false_eq_true]

end

/-! The lines by their text -/

/-- After some containers there is one line for each text of theirs, and it joins the containers of that text. -/
structure JoinedByRaw (xs : List WudApiContainer) (byRaw : List ApiPendingLine) : Prop where
  nodup : (byRaw.map (·.raw)).Nodup
  ne_nil : ∀ line ∈ byRaw, line.raw ≠ []
  listed : ∀ c ∈ xs, containerPendingLine c ≠ [] → ∃ line ∈ byRaw, line.raw = containerPendingLine c
  joins : ∀ line ∈ byRaw, line.Joins fun c => c ∈ xs ∧ containerPendingLine c = line.raw

section
variable {xs : List WudApiContainer} {byRaw : List ApiPendingLine} {d : WudApiContainer}

theorem joinedByRaw_nil : JoinedByRaw [] [] := ⟨by simp,by simp,by simp,by simp⟩

/-- A container of another text changes nothing for a line. -/
theorem joins_skip {line : ApiPendingLine} (h : line.Joins fun c => c ∈ xs ∧ containerPendingLine c = line.raw)
    (hd : containerPendingLine d ≠ line.raw) :
    line.Joins fun c => c ∈ xs ++ [d] ∧ containerPendingLine c = line.raw := by
  refine h.congr fun c => ?_
  rw [List.mem_append,List.mem_singleton]
  constructor
  · rintro ⟨hc,hraw⟩
    exact ⟨.inl hc,hraw⟩
  · rintro ⟨hc | rfl,hraw⟩
    · exact ⟨hc,hraw⟩
    · exact absurd hraw hd

/-- The line of the container takes the place of the one with its text. -/
theorem JoinedByRaw.set {line : ApiPendingLine} (h : JoinedByRaw xs byRaw) (hraw : line.raw = containerPendingLine d)
    (hne : line.raw ≠ []) (hline : line.Joins fun c => c ∈ xs ++ [d] ∧ containerPendingLine c = line.raw) :
    JoinedByRaw (xs ++ [d]) (Keyed.set (·.raw) line byRaw) := by
  refine ⟨Keyed.nodup_set h.nodup,fun other hother => ?_,fun c hc hcraw => ?_,fun other hother => ?_⟩
  · obtain rfl | ⟨hother,-⟩ := (Keyed.mem_set h.nodup).mp hother
    · exact hne
    · exact h.ne_nil other hother
  · by_cases hsame : containerPendingLine c = line.raw
    · exact ⟨line,Keyed.mem_set_self,hsame.symm⟩
    · obtain hc | hc := List.mem_append.mp hc
      · obtain ⟨other,hother,hoc⟩ := h.listed c hc hcraw
        exact ⟨other,(Keyed.mem_set h.nodup).mpr (.inr ⟨hother,fun he => hsame (hoc ▸ he)⟩),hoc⟩
      · exact absurd (List.mem_singleton.mp hc ▸ hraw.symm) hsame
  · obtain rfl | ⟨hother,hdiff⟩ := (Keyed.mem_set h.nodup).mp hother
    · exact hline
    · exact joins_skip (h.joins other hother) fun he => hdiff (he.symm.trans hraw.symm)

theorem JoinedByRaw.add (h : JoinedByRaw xs byRaw) : JoinedByRaw (xs ++ [d]) (addPendingContainer byRaw d) := by
  unfold addPendingContainer
  dsimp only
  split
  · rename_i hnone
    refine ⟨h.nodup,h.ne_nil,fun c hc hraw => ?_,fun line hline => ?_⟩
    · obtain hc | hc := List.mem_append.mp hc
      · exact h.listed c hc hraw
      · rw [List.mem_singleton.mp hc] at hraw
        exact absurd hnone hraw
    · exact joins_skip (h.joins line hline) fun he => h.ne_nil line hline (he.symm.trans hnone)
  · rename_i hne
    split
    · rename_i hfree
      refine h.set rfl hne ((joins_single d _).congr fun c => ?_)
      rw [List.mem_append,List.mem_singleton]
      constructor
      · rintro rfl
        exact ⟨.inr rfl,rfl⟩
      · rintro ⟨hc | rfl,hraw⟩
        · obtain ⟨line,hline,hlc⟩ := h.listed c hc (hraw ▸ hne)
          exact absurd (hlc.trans hraw) (Keyed.find_eq_none_iff.mp hfree line hline)
        · rfl
    · rename_i existing hfound
      obtain ⟨hexisting,hraw⟩ := Keyed.mem_of_find hfound
      refine h.set hraw (h.ne_nil existing hexisting) ((joins_mergeApiPendingLine (h.joins existing hexisting)).congr
        fun c => ?_)
      have hmerged : (mergeApiPendingLine existing d).raw = existing.raw := rfl
      rw [hmerged,List.mem_append,List.mem_singleton]
      constructor
      · rintro (⟨hc,hcraw⟩ | rfl)
        · exact ⟨.inl hc,hcraw⟩
        · exact ⟨.inr rfl,hraw.symm⟩
      · rintro ⟨hc | rfl,hcraw⟩
        · exact .inl ⟨hc,hcraw⟩
        · exact .inr rfl

theorem JoinedByRaw.foldl {more : List WudApiContainer} (h : JoinedByRaw xs byRaw) :
    JoinedByRaw (xs ++ more) (more.foldl addPendingContainer byRaw) := by
  induction more generalizing xs byRaw with
  | nil => simpa using h
  | cons d more ih =>
    rw [List.foldl_cons,List.append_cons]
    exact ih h.add

end

/-! All lines -/

/-- A container contributes to the line of its text, and to each line whose image it shares; unresolved containers
count as retained. -/
def ContributesTo (containers unresolvedContainers : List WudApiContainer) (line : ApiPendingLine)
    (c : WudApiContainer) : Prop :=
  c ∈ containers ∧ containerPendingLine c = line.raw ∨
    (c ∈ containers ∨ ∃ u ∈ unresolvedContainers, c = { u with metadataStatus := .retained }) ∧
      containerCanShareApplyScope c line.container = true

section
variable {containers unresolvedContainers : List WudApiContainer}

theorem containerCanShare_congr (c : WudApiContainer) {pending pending' : WudApiContainer}
    (h : pending.image = pending'.image) :
    containerCanShareApplyScope c pending = containerCanShareApplyScope c pending' := by
  rw [containerCanShareApplyScope,containerCanShareApplyScope,h]

theorem joinedByRaw_sorted (containers : List WudApiContainer) :
    JoinedByRaw (Keyed.sortedBy containerSortKey containers)
      ((Keyed.sortedBy containerSortKey containers).foldl addPendingContainer []) := by
  have hfold : JoinedByRaw ([] ++ Keyed.sortedBy containerSortKey containers)
      ((Keyed.sortedBy containerSortKey containers).foldl addPendingContainer []) := joinedByRaw_nil.foldl
  exact hfold

theorem mem_sortedContainers {c : WudApiContainer} {xs : List WudApiContainer} :
    c ∈ Keyed.sortedBy containerSortKey xs ↔ c ∈ xs := (Keyed.sortedBy_perm containerSortKey xs).mem_iff

theorem joins_apiPendingLines {line : ApiPendingLine} (h : line ∈ apiPendingLines containers unresolvedContainers) :
    line.Joins (ContributesTo containers unresolvedContainers line) := by
  obtain ⟨base,hbase,rfl⟩ := List.mem_map.mp h
  have hbase := (Keyed.sortedBy_perm ApiPendingLine.raw _).mem_iff.mp hbase
  refine (joins_mergeRelated ((joinedByRaw_sorted containers).joins base hbase)).congr fun c => ?_
  rw [ContributesTo,mergeRelated_raw,containerCanShare_congr c (mergeRelated_image _ base),mem_sortedContainers,
    mem_sortedContainers,List.mem_append,List.mem_map]
  simp only [@eq_comm _ c]

theorem exists_line {c : WudApiContainer} (hc : c ∈ containers) (hraw : containerPendingLine c ≠ []) :
    ∃ line ∈ apiPendingLines containers unresolvedContainers, line.raw = containerPendingLine c := by
  obtain ⟨base,hbase,hb⟩ := (joinedByRaw_sorted containers).listed c (mem_sortedContainers.mpr hc) hraw
  refine ⟨_,List.mem_map_of_mem ((Keyed.sortedBy_perm ApiPendingLine.raw _).mem_iff.mpr hbase),?_⟩
  rw [mergeRelated_raw,hb]

theorem nodup_raws : ((apiPendingLines containers unresolvedContainers).map (·.raw)).Nodup := by
  have hraws : (apiPendingLines containers unresolvedContainers).map (·.raw) =
      (Keyed.sortedBy (·.raw)
        ((Keyed.sortedBy containerSortKey containers).foldl addPendingContainer [])).map (·.raw) := by
    rw [apiPendingLines,List.map_map]
    exact List.map_congr_left fun line _ => mergeRelated_raw _ line
  rw [hraws]
  exact ((Keyed.sortedBy_perm (·.raw) _).map _).nodup_iff.mpr (joinedByRaw_sorted containers).nodup

theorem apiPendingLines_perm {containers' unresolvedContainers' : List WudApiContainer}
    (hids : (containers.map (·.id)).Nodup) (hc : containers.Perm containers')
    (hu : unresolvedContainers.Perm unresolvedContainers') :
    apiPendingLines containers' unresolvedContainers' = apiPendingLines containers unresolvedContainers := by
  have hsorted : Keyed.sortedBy containerSortKey containers = Keyed.sortedBy containerSortKey containers' := by
    refine Keyed.sortedBy_eq_of_perm hc fun a ha b hb hkey => ?_
    have hid : a.id = b.id := congrArg (fun key => (ofLex (ofLex key).2).1) hkey
    exact List.inj_on_of_nodup_map hids ha hb hid
  have hrelated := hc.append (hu.map fun u => { u with metadataStatus := .retained })
  have hperm := ((Keyed.sortedBy_perm containerSortKey _).trans hrelated).trans
    (Keyed.sortedBy_perm containerSortKey _).symm
  rw [apiPendingLines,apiPendingLines,← hsorted]
  exact List.map_congr_left fun line _ => (mergeRelated_perm hperm line).symm

end

/-- The lines do not depend on the order of the containers. Each container with a text has one line of it, which holds
its id if it has one; each line joins exactly the containers that contribute to it. -/
theorem api_pending_lines_join (containers unresolvedContainers : List WudApiContainer)
    (hids : (containers.map (·.id)).Nodup) :
    (∀ containers' unresolvedContainers', containers.Perm containers' →
      unresolvedContainers.Perm unresolvedContainers' →
      apiPendingLines containers' unresolvedContainers' = apiPendingLines containers unresolvedContainers) ∧
    (∀ c ∈ containers, containerPendingLine c ≠ [] →
      ∃ line ∈ apiPendingLines containers unresolvedContainers, line.raw = containerPendingLine c ∧
        (c.id ≠ [] → c.id ∈ line.containerIds) ∧
        ∀ other ∈ apiPendingLines containers unresolvedContainers, other.raw = containerPendingLine c →
          other = line) ∧
    ∀ line ∈ apiPendingLines containers unresolvedContainers,
      line.Joins (ContributesTo containers unresolvedContainers line) := by
  refine ⟨fun _ _ => apiPendingLines_perm hids,fun c hc hraw => ?_,fun line => joins_apiPendingLines⟩
  obtain ⟨line,hline,hl⟩ := @exists_line containers unresolvedContainers c hc hraw
  refine ⟨line,hline,hl,fun hid => ?_,fun other hother ho => ?_⟩
  · exact ((joins_apiPendingLines hline).ids c.id).mpr ⟨hid,c,.inl ⟨hc,hl.symm⟩,rfl⟩
  · exact List.inj_on_of_nodup_map nodup_raws hother hline (ho.trans hl.symm)

namespace Example

/-- Two updates of one image, and a container of that image without a result. -/
def sharedImage : List WudApiContainer :=
  [reportedContainer "2" "web:1" "3" "" "tag",reportedContainer "1" "web:1" "2" "" "tag"]

def unresolvedWeb : WudApiContainer := reportedContainer "3" "web:1" "" "" ""

theorem shared_image_joined :
    apiPendingLines sharedImage.reverse [unresolvedWeb] = apiPendingLines sharedImage [unresolvedWeb] ∧
    (∀ line ∈ apiPendingLines sharedImage [unresolvedWeb],
      line.Joins (ContributesTo sharedImage [unresolvedWeb] line)) ∧
    (apiPendingLines sharedImage [unresolvedWeb]).map (·.container.metadataStatus) = [.retained,.retained] := by
  obtain ⟨hperm,-,hjoins⟩ := api_pending_lines_join sharedImage [unresolvedWeb] (by decide)
  exact ⟨hperm _ _ (List.reverse_perm sharedImage).symm (List.Perm.refl _),hjoins,by decide +kernel⟩

/-- A container without an id adds none to its line, and an unresolved one counts as retained although it was
recovered. -/
theorem nameless_and_recovered :
    containerPendingLine (reportedContainer "" "app:1" "2" "" "tag") ≠ [] ∧
    (∀ line ∈ apiPendingLines [reportedContainer "" "app:1" "2" "" "tag"] [], "".toList ∉ line.containerIds) ∧
    (apiPendingLines [reportedContainer "1" "app:1" "2" "" "tag"]
        [{ reportedContainer "2" "app:1" "" "" "" with metadataStatus := .recovered }]).map
      (·.container.metadataStatus) = [.retained] := by
  decide +kernel

end Example
end Wudup

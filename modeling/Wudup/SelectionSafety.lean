import Wudup.Library.JsonRecord
import Wudup.Library.Traverse
import Wudup.PlanMatching

/-! What update selections take from the matches of a plan: the lines and the stacks they name. -/
namespace Wudup
open Library

/-! The ids of groups -/

def SelectionIdentity.fields (x : SelectionIdentity) : List (Str × JsonValue) :=
  [field "compose_file" x.composeFile,field "compose_images" x.composeImages,field "directory" x.directory,
    field "line_no" x.lineNo,field "project_directory" x.projectDirectory,field "project_name" x.projectName,
    field "services" x.services,field "target" x.target]

instance : JsonData SelectionIdentity := .ofFields SelectionIdentity.fields (fun _ _ => rfl)
    (fun _ => of_decide_eq_true rfl) <| by
  intro a b h
  cases a
  cases b
  simpa [SelectionIdentity.fields,field_inj] using h

/-- Ids are hashes of the canonical text. -/
def SelectionHost.hashing (resolve sha256 : Str → Str) : SelectionHost where
  resolve := resolve
  digest identity := sha256 (toJson identity).text

theorem hashing_injective (resolve : Str → Str) {sha256 : Str → Str} (hash : Function.Injective sha256) :
    Function.Injective (SelectionHost.hashing resolve sha256).digest := by
  intro a b h
  exact toJson_inj.mp (JsonValue.text_injective (hash h))

/-- The stack and the line of a match. -/
def Match.group (m : Match) : ℕ × ℕ := (m.stack.index,m.target.lineNo)

/-- The matches of one stack and line. -/
def groupOf (found : List Match) (m : Match) : List Match := found.filter (·.group = m.group)

/-- Stacks and lines as they are first met. -/
def groupOrder (found : List Match) : List (ℕ × ℕ) := orderedUnique (found.map Match.group)

theorem mem_groupOrder {found : List Match} {m : Match} (h : m ∈ found) : m.group ∈ groupOrder found :=
  mem_orderedUnique.mpr (List.mem_map_of_mem h)

theorem groupOf_congr {found : List Match} {m n : Match} (h : m.group = n.group) : groupOf found m = groupOf found n := by
  rw [groupOf,h,groupOf]

theorem mem_groupOf {found : List Match} {m n : Match} : n ∈ groupOf found m ↔ n ∈ found ∧ n.group = m.group := by
  rw [groupOf,List.mem_filter,decide_eq_true_iff]

/-- A group begins with a match of its stack and line. -/
theorem groupOf_eq_cons {found : List Match} {m : Match} (h : m ∈ found) :
    ∃ first rest, groupOf found m = first :: rest ∧ first ∈ found ∧ first.group = m.group := by
  have hm : m ∈ groupOf found m := mem_groupOf.mpr ⟨h,rfl⟩
  cases hg : groupOf found m with
  | nil =>
    rw [hg] at hm
    cases hm
  | cons first rest =>
    have hfirst : first ∈ groupOf found m := hg ▸ List.mem_cons_self
    exact ⟨first,rest,rfl,mem_groupOf.mp hfirst⟩

namespace SelectionHost
variable (host : SelectionHost)

/-- The id of the group that a match is in. -/
def groupId (found : List Match) (m : Match) : Str := host.selectionIdForMatches (groupOf found m)

/-- No group with the same id is met after the one of the match. -/
def LastOfId (found : List Match) (m : Match) : Prop :=
  ∀ n ∈ found, host.groupId found n = host.groupId found m →
    (groupOrder found).idxOf n.group ≤ (groupOrder found).idxOf m.group

/-- A selection takes its line, or the last group of its id if that is one of its line. -/
def Takes (found : List Match) (item : UpdateSelection) (m : Match) : Prop :=
  (m.target.lineNo : ℤ) = item.lineNo ∧
    (item.selectionId = [] ∨ host.groupId found m = item.selectionId ∧ host.LastOfId found m)

/-- The Compose file of a match's stack, with all links resolved. -/
def composeFile (m : Match) : Str := host.resolve (host.resolve m.stack.directory ++ '/' :: m.stack.file)

/-- Matches with the same Compose file are in the same stack. -/
def StacksApart (found : List Match) : Prop :=
  ∀ m ∈ found, ∀ n ∈ found, host.composeFile m = host.composeFile n → m.stack.index = n.stack.index

variable {host}

theorem identity_of_groupId (hash : Function.Injective host.digest) {found : List Match} {m n : Match}
    (hm : m ∈ found) (hn : n ∈ found) (h : host.groupId found m = host.groupId found n) :
    ∃ first ∈ found, ∃ second ∈ found, first.group = m.group ∧ second.group = n.group ∧
      host.identity first (groupOf found m) = host.identity second (groupOf found n) := by
  obtain ⟨first,rest,hfirst,hmem,hgroup⟩ := groupOf_eq_cons hm
  obtain ⟨second,others,hsecond,hmem',hgroup'⟩ := groupOf_eq_cons hn
  refine ⟨first,hmem,second,hmem',hgroup,hgroup',?_⟩
  unfold groupId at h
  rw [hfirst,hsecond,selectionIdForMatches,selectionIdForMatches] at h
  rw [hfirst,hsecond]
  exact hash (List.append_cancel_left h)

/-- Groups of one id are groups of one line. -/
theorem lineNo_of_groupId (hash : Function.Injective host.digest) {found : List Match} {m n : Match}
    (hm : m ∈ found) (hn : n ∈ found) (h : host.groupId found m = host.groupId found n) :
    m.target.lineNo = n.target.lineNo := by
  obtain ⟨first,-,second,-,hfirst,hsecond,hidentity⟩ := identity_of_groupId hash hm hn h
  have hline : first.target.lineNo = second.target.lineNo := congrArg SelectionIdentity.lineNo hidentity
  have hf : first.target.lineNo = m.target.lineNo := congrArg Prod.snd hfirst
  have hs : second.target.lineNo = n.target.lineNo := congrArg Prod.snd hsecond
  rw [← hf,hline,hs]

/-- Where the stacks have Compose files of their own, no two groups share an id. -/
theorem lastOfId_of_apart (hash : Function.Injective host.digest) {found : List Match}
    (hapart : host.StacksApart found) {m : Match} (hm : m ∈ found) : host.LastOfId found m := by
  intro n hn h
  obtain ⟨first,hfirst,second,hsecond,hf,hs,hidentity⟩ := identity_of_groupId hash hn hm h
  have hfile : host.composeFile first = host.composeFile second := congrArg SelectionIdentity.composeFile hidentity
  have hstack := hapart first hfirst second hsecond hfile
  have hline : first.target.lineNo = second.target.lineNo := congrArg SelectionIdentity.lineNo hidentity
  have hsame : n.group = m.group := by
    rw [← hf,← hs]
    exact Prod.ext hstack hline
  rw [hsame]

theorem Takes.of_group {found : List Match} {item : UpdateSelection} {m n : Match} (h : host.Takes found item m)
    (heq : n.group = m.group) : host.Takes found item n := by
  have hid : host.groupId found n = host.groupId found m := congrArg host.selectionIdForMatches (groupOf_congr heq)
  have hline : n.target.lineNo = m.target.lineNo := congrArg Prod.snd heq
  refine ⟨by rw [hline]; exact h.1,h.2.imp_right ?_⟩
  intro ⟨hitem,hlast⟩
  refine ⟨hid.trans hitem,?_⟩
  intro k hk hsame
  rw [heq]
  exact hlast k hk (hsame.trans hid)

/-! One selection -/

theorem matchesBySelectionId_eq (found : List Match) (selectionId : Str) :
    host.matchesBySelectionId found selectionId =
      ((groupOrder found).reverse.find? fun key =>
        host.selectionIdForMatches (found.filter (·.group = key)) = selectionId).map fun key =>
          found.filter (·.group = key) := by
  rw [matchesBySelectionId,groupedMatches,← List.map_reverse,List.find?_map]
  rfl

theorem matchesBySelectionId_eq_none {found : List Match} {selectionId : Str} :
    host.matchesBySelectionId found selectionId = none ↔ ∀ m ∈ found, host.groupId found m ≠ selectionId := by
  rw [matchesBySelectionId_eq,Option.map_eq_none_iff,List.find?_eq_none]
  simp only [List.mem_reverse,groupOrder,mem_orderedUnique,List.forall_mem_map,decide_eq_true_iff]
  rfl

/-- The group of an id is the last one that has it. -/
theorem matchesBySelectionId_eq_some {found group : List Match} {selectionId : Str}
    (h : host.matchesBySelectionId found selectionId = some group) :
    ∃ m ∈ found, group = groupOf found m ∧ host.groupId found m = selectionId ∧ host.LastOfId found m := by
  rw [matchesBySelectionId_eq,Option.map_eq_some_iff] at h
  obtain ⟨key,hkey,rfl⟩ := h
  obtain ⟨hid,before,after,hsplit,hbefore⟩ := List.find?_eq_some_iff_append.mp hkey
  have horder : groupOrder found = after.reverse ++ key :: before.reverse := by
    rw [← List.reverse_reverse (groupOrder found),hsplit]
    simp
  have hmem : key ∈ groupOrder found := by
    rw [horder]
    simp
  obtain ⟨m,hm,rfl⟩ := List.mem_map.mp (mem_orderedUnique.mp hmem)
  have hid : host.groupId found m = selectionId := of_decide_eq_true hid
  refine ⟨m,hm,rfl,hid,?_⟩
  intro n hn hsame
  have hmem' : n.group ∈ after.reverse ++ m.group :: before.reverse := horder ▸ mem_groupOrder hn
  have hnodup : (after.reverse ++ m.group :: before.reverse).Nodup := horder ▸ nodup_orderedUnique _
  rw [List.nodup_append] at hnodup
  have hkey : m.group ∉ after.reverse := fun h => hnodup.2.2 _ h _ List.mem_cons_self rfl
  rw [horder,List.idxOf_append_of_notMem hkey,List.idxOf_cons_self]
  rcases List.mem_append.mp hmem' with hin | hin
  · rw [List.idxOf_append_of_mem hin]
    exact (List.idxOf_lt_length_of_mem hin).le
  · rcases List.mem_cons.mp hin with heq | hin
    · rw [heq,List.idxOf_append_of_notMem hkey,List.idxOf_cons_self]
    · have hnot := hbefore n.group (List.mem_reverse.mp hin)
      rw [Bool.not_eq_true'] at hnot
      exact absurd (hsame.trans hid) (of_decide_eq_false hnot)

theorem mem_selectedMatches {found group : List Match} {item : UpdateSelection}
    (h : host.selectedMatches found item = .ok group) {m : Match} :
    m ∈ group ↔ m ∈ found ∧ host.Takes found item m := by
  rw [selectedMatches] at h
  unfold Takes
  by_cases hwide : item.selectionId = []
  · rw [if_pos hwide] at h
    cases h
    simp [hwide]
  · rw [if_neg hwide] at h
    cases hg : host.matchesBySelectionId found item.selectionId with
    | none => simp [hg] at h
    | some members =>
      obtain ⟨n,hn,rfl,hid,hlast⟩ := matchesBySelectionId_eq_some hg
      obtain ⟨first,rest,hfirst,-,hgroup⟩ := groupOf_eq_cons hn
      have hline : first.target.lineNo = n.target.lineNo := congrArg Prod.snd hgroup
      simp only [hg,hfirst,List.head?_cons,Option.all_some,hline] at h
      split at h
      · rename_i hitem
        cases h
        have hitem : (n.target.lineNo : ℤ) = item.lineNo := of_decide_eq_true hitem
        rw [← hfirst,mem_groupOf,or_iff_right hwide]
        apply and_congr_right
        intro hm
        constructor
        · intro heq
          have hid' : host.groupId found m = host.groupId found n :=
            congrArg host.selectionIdForMatches (groupOf_congr heq)
          have hline' : m.target.lineNo = n.target.lineNo := congrArg Prod.snd heq
          refine ⟨by rw [hline',hitem],hid'.trans hid,?_⟩
          intro k hk hsame
          rw [heq]
          exact hlast k hk (hsame.trans hid')
        · intro ⟨_,hid',hlast'⟩
          have hsame : host.groupId found m = host.groupId found n := hid'.trans hid.symm
          have heq := le_antisymm (hlast m hm hsame) (hlast' n hn hsame.symm)
          exact (List.idxOf_inj (mem_groupOrder hm)).mp heq
      · cases h

theorem exists_selectedMatches_error (hash : Function.Injective host.digest) {found : List Match}
    {item : UpdateSelection} : (∃ e, host.selectedMatches found item = .error e) ↔
      item.selectionId ≠ [] ∧ ∀ m ∈ found, (m.target.lineNo : ℤ) = item.lineNo →
        host.groupId found m ≠ item.selectionId := by
  rw [selectedMatches]
  by_cases hwide : item.selectionId = []
  · simp [hwide]
  · rw [if_neg hwide]
    cases hg : host.matchesBySelectionId found item.selectionId with
    | none =>
      have hnone := matchesBySelectionId_eq_none.mp hg
      simp only [Except.error.injEq,exists_eq',true_iff]
      exact ⟨hwide,fun m hm _ => hnone m hm⟩
    | some members =>
      obtain ⟨n,hn,rfl,hid,-⟩ := matchesBySelectionId_eq_some hg
      obtain ⟨first,rest,hfirst,-,hgroup⟩ := groupOf_eq_cons hn
      have hline : first.target.lineNo = n.target.lineNo := congrArg Prod.snd hgroup
      simp only [hfirst,List.head?_cons,Option.all_some,hline]
      by_cases hitem : (n.target.lineNo : ℤ) = item.lineNo
      · simp only [hitem,decide_true,if_true,reduceCtorEq,exists_false,false_iff,not_and]
        intro _ hnone
        exact hnone n hn hitem hid
      · simp only [hitem,decide_false,Bool.false_eq_true,if_false,Except.error.injEq,exists_eq',true_iff]
        refine ⟨hwide,?_⟩
        intro m hm hm' hid'
        apply hitem
        rw [← hm',lineNo_of_groupId hash hm hn (hid'.trans hid.symm)]

end SelectionHost

/-! All selections -/

/-- Selections that are refused whatever there is to select. -/
def RefusedSelections (selections : List UpdateSelection) : Prop :=
  (∃ item ∈ selections, item.lineNo < 1) ∨ ¬ selections.Nodup ∨
    ∃ a ∈ selections, ∃ b ∈ selections, a.lineNo = b.lineNo ∧ a.selectionId = [] ∧ b.selectionId ≠ []

theorem normalizeUpdateSelections_spec (selections : List UpdateSelection) :
    RefusedSelections selections ∧ (∃ e, normalizeUpdateSelections selections = .error e) ∨
      ¬ RefusedSelections selections ∧ ∃ normalized, normalizeUpdateSelections selections = .ok normalized ∧
        normalized.Perm selections := by
  rw [normalizeUpdateSelections]
  cases hcheck : checkSelections [] selections with
  | error e =>
    refine .inl ⟨?_,e,rfl⟩
    by_contra hnot
    simp only [RefusedSelections,not_or,not_exists,not_and,not_not] at hnot
    have hok : checkSelections [] selections = .ok () := checkSelections_eq_ok.mpr ⟨hnot.1,by simp,hnot.2.1⟩
    rw [hcheck] at hok
    cases hok
  | ok _ =>
    obtain ⟨hlines,-,hn⟩ := checkSelections_eq_ok.mp hcheck
    by_cases hmixed : mixedLines selections = []
    · refine .inr ⟨?_,selections.insertionSort fun a b => a.sortKey ≤ b.sortKey,?_,List.perm_insertionSort _ _⟩
      · rintro (⟨item,hitem,hline⟩ | hdouble | ⟨a,ha,b,hb,hline,hwide,hscoped⟩)
        · exact hlines item hitem hline
        · exact hdouble hn
        · exact hscoped (mixedLines_eq_nil.mp hmixed a ha b hb hline hwide)
      · simp [hmixed,bind,Except.bind,pure,Except.pure]
    · refine .inl ⟨.inr (.inr ?_),.mixed (mixedLines selections),?_⟩
      · by_contra hnot
        push Not at hnot
        exact hmixed (mixedLines_eq_nil.mpr hnot)
      · simp [hmixed,bind,Except.bind]

namespace SelectionHost
variable {host : SelectionHost}

/-- Matches of one key are in one group. -/
theorem group_of_key {m n : Match} (h : m.key = n.key) : m.group = n.group := by
  have hstack : m.stack.index = n.stack.index := congrArg Prod.fst h
  have hline : m.target.lineNo = n.target.lineNo := congrArg (·.2.1) h
  exact Prod.ext hstack hline

theorem filterMatchesForSelections_spec (hash : Function.Injective host.digest) (found : List Match)
    (selections : List UpdateSelection) :
    ((∃ e, host.filterMatchesForSelections found selections = .error e) ↔ RefusedSelections selections ∨
      ∃ item ∈ selections, item.selectionId ≠ [] ∧ ∀ m ∈ found, (m.target.lineNo : ℤ) = item.lineNo →
        host.groupId found m ≠ item.selectionId) ∧
    ∀ kept normalized, host.filterMatchesForSelections found selections = .ok (kept,normalized) →
      ∃ p : Match → Bool, kept = found.filter p ∧ ∀ m ∈ found, p m = true ↔
        selections = [] ∨ ∃ item ∈ selections, host.Takes found item m := by
  rcases normalizeUpdateSelections_spec selections with ⟨href,e,he⟩ | ⟨hfree,normalized,hok,hperm⟩
  · simp [filterMatchesForSelections,he,href,bind,Except.bind]
  · by_cases hnil : normalized = []
    · subst hnil
      obtain rfl := List.nil_perm.mp hperm
      refine ⟨?_,?_⟩
      · simp [filterMatchesForSelections,hok,hfree,bind,Except.bind,pure,Except.pure]
      · intro kept normalized h
        simp only [filterMatchesForSelections,hok,bind,Except.bind,if_true,pure,Except.pure,Except.ok.injEq,
          Prod.mk.injEq] at h
        exact ⟨fun _ => true,by simp [h.1],by simp⟩
    · have hne : selections ≠ [] := fun h => hnil (List.perm_nil.mp (h ▸ hperm))
      cases hs : normalized.mapM (host.selectedMatches found) with
      | error e =>
        obtain ⟨item,hitem,hstale⟩ := exists_mapM_error.mp ⟨e,hs⟩
        have hstale := (exists_selectedMatches_error hash).mp hstale
        refine ⟨?_,?_⟩
        · simp only [filterMatchesForSelections,hok,hnil,hs,bind,Except.bind,if_false,Except.error.injEq,exists_eq',
            true_iff]
          exact .inr ⟨item,hperm.mem_iff.mp hitem,hstale⟩
        · simp [filterMatchesForSelections,hok,hnil,hs,bind,Except.bind]
      | ok selected =>
        have hall := mapM_eq_ok.mp hs
        have hselected : ∀ m ∈ found, (selected.flatten.map Match.key).contains m.key = true ↔
            ∃ item ∈ selections, host.Takes found item m := by
          intro m hm
          rw [List.contains_iff_mem,List.mem_map]
          constructor
          · intro ⟨n,hn,hkey⟩
            obtain ⟨group,hgroup,hn⟩ := List.mem_flatten.mp hn
            have hmem : (Except.ok group : Except PlanInputError _) ∈ normalized.map (host.selectedMatches found) := by
              rw [hall]
              exact List.mem_map_of_mem hgroup
            obtain ⟨item,hitem,hselected⟩ := List.mem_map.mp hmem
            have htakes := ((mem_selectedMatches hselected).mp hn).2
            exact ⟨item,hperm.mem_iff.mp hitem,htakes.of_group (group_of_key hkey).symm⟩
          · intro ⟨item,hitem,htakes⟩
            have hmem : host.selectedMatches found item ∈ selected.map .ok := by
              rw [← hall]
              exact List.mem_map_of_mem (hperm.mem_iff.mpr hitem)
            obtain ⟨group,hgroup,hselected⟩ := List.mem_map.mp hmem
            exact ⟨m,List.mem_flatten.mpr ⟨group,hgroup,(mem_selectedMatches hselected.symm).mpr ⟨hm,htakes⟩⟩,rfl⟩
        refine ⟨?_,?_⟩
        · simp only [filterMatchesForSelections,hok,hnil,hs,bind,Except.bind,if_false,pure,Except.pure,reduceCtorEq,
            exists_false,hfree,false_or,false_iff,not_exists,not_and]
          intro item hitem hscoped hstale
          have hfails : ∃ e, normalized.mapM (host.selectedMatches found) = .error e :=
            exists_mapM_error.mpr ⟨item,hperm.mem_iff.mpr hitem,
              (exists_selectedMatches_error hash).mpr ⟨hscoped,hstale⟩⟩
          obtain ⟨e,he⟩ := hfails
          rw [hs] at he
          cases he
        · intro kept normalized' h
          simp only [filterMatchesForSelections,hok,hnil,hs,bind,Except.bind,if_false,pure,Except.pure,Except.ok.injEq,
            Prod.mk.injEq] at h
          refine ⟨_,h.1.symm,?_⟩
          intro m hm
          rw [hselected m hm,or_iff_right hne]

end SelectionHost

/-! Lines of which something was left out -/

theorem mem_matchedServices {found : List Match} {line : ℕ} {key : Selected} :
    key ∈ matchedServices found line ↔
      ∃ m ∈ found, m.target.lineNo = line ∧ (m.stack.index,m.composeImage,m.service) = key := by
  simp [matchedServices,and_assoc]

theorem sameElements_iff {xs ys : List Selected} : sameElements xs ys = true ↔ ∀ x, x ∈ xs ↔ x ∈ ys := by
  simp only [sameElements,Bool.and_eq_true,List.all_eq_true,List.contains_iff_mem]
  exact ⟨fun h x => ⟨h.1 x,h.2 x⟩,fun h => ⟨fun x => (h x).mp,fun x => (h x).mpr⟩⟩

/-- Where stacks are kept as a whole, a line is partly selected when some match of it was left out. -/
theorem mem_partiallySelectedLineNumbers {found : List Match} {p : Match → Bool}
    (hgroup : ∀ m ∈ found, ∀ n ∈ found, n.group = m.group → p m = true → p n = true) {line : ℕ} :
    line ∈ partiallySelectedLineNumbers found (found.filter p) ↔
      (∃ m ∈ found.filter p, m.target.lineNo = line) ∧
        ∃ m ∈ found, m.target.lineNo = line ∧ m ∉ found.filter p := by
  rw [partiallySelectedLineNumbers,List.mem_filter,List.mem_insertionSort,mem_orderedUnique,List.mem_map]
  apply and_congr_right
  intro _
  have hsame : sameElements (matchedServices (found.filter p) line) (matchedServices found line) = true ↔
      ∀ m ∈ found, m.target.lineNo = line → m ∈ found.filter p := by
    rw [sameElements_iff]
    constructor
    · intro h m hm hline
      obtain ⟨n,hn,hn',hkey⟩ := mem_matchedServices.mp ((h _).mpr (mem_matchedServices.mpr ⟨m,hm,hline,rfl⟩))
      obtain ⟨hn,hp⟩ := List.mem_filter.mp hn
      have heq : m.group = n.group := Prod.ext (congrArg Prod.fst hkey).symm (hline.trans hn'.symm)
      exact List.mem_filter.mpr ⟨hm,hgroup n hn m hm heq hp⟩
    · intro h key
      rw [mem_matchedServices,mem_matchedServices]
      constructor
      · intro ⟨m,hm,hrest⟩
        exact ⟨m,(List.mem_filter.mp hm).1,hrest⟩
      · intro ⟨m,hm,hline,hkey⟩
        exact ⟨m,h m hm hline,hline,hkey⟩
  rw [Bool.not_eq_true',← Bool.not_eq_true,hsame]
  push Not
  rfl

/-- The lines are listed once each, in their order. -/
theorem pairwise_partiallySelectedLineNumbers (found kept : List Match) :
    (partiallySelectedLineNumbers found kept).Pairwise (· < ·) := by
  apply List.Pairwise.filter
  exact Keyed.pairwise_insertionSort_of_nodup (nodup_orderedUnique _)

/-- Selections take the matches of their lines, or of the last group with their id, in the order of the
matches; without selections all are taken. Refused are selections that are not positive, come twice or mix
the two kinds on a line, and ids that no group of the line has. Partly selected are the lines of which
some matches were taken and some were not. -/
theorem selections_filter_exactly {sha256 : Str → Str} (resolve : Str → Str) (hash : Function.Injective sha256)
    (found : List Match) (selections : List UpdateSelection) :
    let host := SelectionHost.hashing resolve sha256
    ((∃ e, host.filterMatchesForSelections found selections = .error e) ↔ RefusedSelections selections ∨
      ∃ item ∈ selections, item.selectionId ≠ [] ∧ ∀ m ∈ found, (m.target.lineNo : ℤ) = item.lineNo →
        host.groupId found m ≠ item.selectionId) ∧
    ∀ kept normalized, host.filterMatchesForSelections found selections = .ok (kept,normalized) →
      (∃ p : Match → Bool, kept = found.filter p ∧ ∀ m ∈ found, p m = true ↔
        selections = [] ∨ ∃ item ∈ selections, host.Takes found item m) ∧
      (∀ line, line ∈ partiallySelectedLineNumbers found kept ↔
        (∃ m ∈ kept, m.target.lineNo = line) ∧ ∃ m ∈ found, m.target.lineNo = line ∧ m ∉ kept) ∧
      (partiallySelectedLineNumbers found kept).Pairwise (· < ·) := by
  intro host
  obtain ⟨herror,hok⟩ := SelectionHost.filterMatchesForSelections_spec (hashing_injective resolve hash) found selections
  refine ⟨herror,?_⟩
  intro kept normalized h
  obtain ⟨p,rfl,hp⟩ := hok kept normalized h
  refine ⟨⟨p,rfl,hp⟩,?_,pairwise_partiallySelectedLineNumbers found _⟩
  intro line
  apply mem_partiallySelectedLineNumbers
  intro m hm n hn heq htaken
  rw [hp m hm] at htaken
  rw [hp n hn]
  exact htaken.imp_right fun ⟨item,hitem,htakes⟩ => ⟨item,hitem,htakes.of_group heq⟩

namespace Example

def nginxTarget : WudTarget where
  lineNo := 1
  raw := "nginx:1 tag=2".toList
  first := "nginx:1".toList
  key := "nginx:1".toList
  repo := "nginx".toList
  hasTag := true
  allowRepo := false
  digest := []
  desiredTag := "2".toList

def nginxStack (index : ℕ) (directory : Str) : ComposeStack where
  index := index
  directory := directory
  file := "compose.yaml".toList
  name := "web".toList
  images := ["nginx:1".toList]
  serviceImages := [⟨"web".toList,"nginx:1".toList,[],[]⟩]

def nginxMatch (index : ℕ) (directory : Str) : Match :=
  ⟨nginxStack index directory,nginxTarget,"nginx:1".toList,"nginx:1".toList,"web".toList⟩

/-- The hash leaves the text as it is. -/
def plainHost : SelectionHost := .hashing id id

def firstMatch : Match := nginxMatch 1 "/a".toList

def secondMatch : Match := nginxMatch 2 "/b".toList

def firstSelection : UpdateSelection := ⟨1,plainHost.groupId [firstMatch,secondMatch] firstMatch⟩

theorem first_stack_taken :
    plainHost.filterMatchesForSelections [firstMatch,secondMatch] [firstSelection] =
      .ok ([firstMatch],[firstSelection]) := by
  decide +kernel

theorem first_stack_partial : partiallySelectedLineNumbers [firstMatch,secondMatch] [firstMatch] = [1] ∧
    (1 ∈ partiallySelectedLineNumbers [firstMatch,secondMatch] [firstMatch] ↔
      (∃ m ∈ [firstMatch], m.target.lineNo = 1) ∧
        ∃ m ∈ [firstMatch,secondMatch], m.target.lineNo = 1 ∧ m ∉ [firstMatch]) :=
  ⟨by decide,((selections_filter_exactly id Function.injective_id [firstMatch,secondMatch] [firstSelection]).2 _ _
    first_stack_taken).2.1 1⟩

/-- The same Compose file in a stack of another number. -/
def twinMatch : Match := nginxMatch 2 "/a".toList

/-- Without selections a match of no selected line is taken, and of two groups with the selected id one
is left out. -/
theorem unselected_match_taken :
    plainHost.filterMatchesForSelections [firstMatch] [] = .ok ([firstMatch],[]) ∧
    plainHost.groupId [firstMatch,twinMatch] firstMatch = plainHost.groupId [firstMatch,twinMatch] twinMatch ∧
    plainHost.filterMatchesForSelections [firstMatch,twinMatch]
        [⟨1,plainHost.groupId [firstMatch,twinMatch] firstMatch⟩] =
      .ok ([twinMatch],[⟨1,plainHost.groupId [firstMatch,twinMatch] firstMatch⟩]) := by
  decide +kernel

end Example

end Wudup

import Mathlib.Data.List.Sort
import Mathlib.Data.Prod.Lex
import Mathlib.Data.List.Lex
import Mathlib.Data.Char
import Wudup.Library.Dict
import Wudup.Library.Keyed
import Wudup.Images

/-! What the planner and the updater share: the services a target matches, and the order of matches. -/
namespace Wudup
open Library

/-- The targets parsed from the todo file; their lines are counted up. -/
structure ParsedTargets where
  targets : List WudTarget
  distinct : (targets.map (·.lineNo)).Nodup

/-- The stacks found by discovery, which numbers them. -/
structure DiscoveredStacks where
  composeStacks : List ComposeStack
  distinct : (composeStacks.map (·.index)).Nodup

/-- Running containers and their images; a name listed twice keeps its last image. -/
abbrev ContainerImages := List (Str × Str)

def ContainerImages.image (images : ContainerImages) (name : Str) : Option Str := images.reverse.lookup name

def sortedSet (xs : List Str) : List Str := (orderedUnique xs).insertionSort (· ≤ ·)

@[simp] theorem mem_sortedSet {x : Str} {xs : List Str} : x ∈ sortedSet xs ↔ x ∈ xs := by
  rw [sortedSet,List.mem_insertionSort,mem_orderedUnique]

theorem nodup_sortedSet (xs : List Str) : (sortedSet xs).Nodup :=
  (List.perm_insertionSort _ _).nodup_iff.mpr (nodup_orderedUnique _)

theorem pairwise_sortedSet (xs : List Str) : (sortedSet xs).Pairwise (· ≤ ·) :=
  List.pairwise_insertionSort _ _

theorem sortedSet_eq_nil {xs : List Str} : sortedSet xs = [] ↔ xs = [] := by
  simp only [List.eq_nil_iff_forall_not_mem,mem_sortedSet]

/-- The same members are listed alike. -/
theorem sortedSet_congr {xs ys : List Str} (h : ∀ x, x ∈ xs ↔ x ∈ ys) : sortedSet xs = sortedSet ys := by
  have hperm : (sortedSet xs).Perm (sortedSet ys) := by
    rw [List.perm_ext_iff_of_nodup (nodup_sortedSet xs) (nodup_sortedSet ys)]
    simpa using h
  exact hperm.eq_of_pairwise (fun _ _ _ _ hab hba => le_antisymm hab hba) (pairwise_sortedSet xs)
    (pairwise_sortedSet ys)

def servicesForImage (serviceImages : List ServiceImage) (image : Str) : List Str :=
  sortedSet ((serviceImages.filter (·.image = image)).map (·.service))

def wudTagIncludeLabel : Str := "wud.tag.include".toList

def serviceImageLabelValue (serviceImage : ServiceImage) (key : Str) : Str :=
  (serviceImage.labels.lookup key).getD []

def composeUnescapeDollars : Str → Str
  | '$' :: '$' :: rest => '$' :: composeUnescapeDollars rest
  | c :: rest => c :: composeUnescapeDollars rest
  | [] => []

def composeEscapeDollars (value : Str) : Str := value.flatMap fun c => if c = '$' then ['$','$'] else [c]

def jsRegexEscape (value : Str) : Str :=
  value.flatMap fun c => if "\\^$.*+?()[]\x7b\x7d|".toList.contains c then ['\\',c] else [c]

/-- The expression that matches one tag and nothing else. -/
def exactTagRegex (tag : Str) : Str := '^' :: jsRegexEscape tag ++ ['$']

def exactTagIncludeMatches (value tag : Str) : Bool := composeUnescapeDollars value = exactTagRegex tag

/-- Services of an untagged image of the target's repository that track exactly the target's tag. -/
def digestPinRematchServices (serviceImages : List ServiceImage) (image : Str) (target : WudTarget) :
    List Str :=
  if !isDigestTargetLine target then []
  else if imageHasTag image || repoKey image ≠ target.repo then []
  else ((serviceImages.filter fun item => item.image = image &&
      exactTagIncludeMatches (serviceImageLabelValue item wudTagIncludeLabel) (imageTag target.first)).map
    (·.service)).insertionSort (· ≤ ·)

/-- The services a target matches through an image; `none` where the image does not match. -/
def servicesForTargetMatch (serviceImages : List ServiceImage) (image : Str) (target : WudTarget)
    (resolved : Str) (allowRepo allowDigestPinRematch : Bool) : Option (List Str) :=
  if imageMatchesResolvedTarget image resolved allowRepo then some (servicesForImage serviceImages image)
  else if !allowDigestPinRematch then none
  else
    let services := digestPinRematchServices serviceImages image target
    if services = [] then none else some services

/-- A target that names a container stands for the container's image. -/
def resolvedImage (containerImages : ContainerImages) (target : WudTarget) : Str :=
  (containerImages.image target.first).getD target.first

def allowsRepo (containerImages : ContainerImages) (target : WudTarget) : Bool :=
  let resolved := resolvedImage containerImages target
  target.allowRepo || resolved ≠ target.first || !imageHasTag resolved

abbrev MatchKey := ℕ × ℕ × Str × Str × Str

def Match.key (m : Match) : MatchKey := (m.stack.index,m.target.lineNo,m.resolved,m.composeImage,m.service)

/-- The key matches are sorted by. -/
def Match.sortKey (m : Match) : ℕ ×ₗ ℕ ×ₗ Str ×ₗ Str ×ₗ Str ×ₗ Str :=
  toLex (m.stack.index,toLex (m.target.lineNo,toLex (m.target.first,toLex (m.resolved,
    toLex (m.composeImage,m.service)))))

def sortMatches (found : List Match) : List Match :=
  found.insertionSort fun a b => a.sortKey ≤ b.sortKey

theorem Match.key_eq_of_sortKey_eq {a b : Match} (h : a.sortKey = b.sortKey) : a.key = b.key := by
  simp only [sortKey,toLex_inj,Prod.mk.injEq] at h
  obtain ⟨hi,hl,-,hr,hc,hs⟩ := h
  simp only [key,hi,hl,hr,hc,hs]

theorem sortMatches_perm (xs : List Match) : (sortMatches xs).Perm xs := List.perm_insertionSort _ xs

/-- The sorted list depends on the matches only, not on the order they were found in. -/
theorem sortMatches_eq_of_perm {xs ys : List Match} (h : xs.Perm ys) (hn : (xs.map Match.key).Nodup) :
    sortMatches xs = sortMatches ys := by
  refine Keyed.sortedBy_eq_of_perm h ?_
  intro a ha b hb hkey
  exact List.inj_on_of_nodup_map hn ha hb (Match.key_eq_of_sortKey_eq hkey)

/-- The matched stacks, by index. -/
def stacksToUpdate (matched : List Match) : List ComposeStack :=
  ((orderedUnique (matched.map (·.stack.index))).insertionSort (· ≤ ·)).filterMap fun index =>
    (matched.reverse.find? (·.stack.index = index)).map (·.stack)

end Wudup

import Wudup.Library.Text
import Wudup.Models

/-! Image references: their digest, tag, matching keys and the rewritten references. -/
namespace Wudup
open Library

def sha256Prefix : Str := "sha256:".toList

def stripDigest (image : Str) : Str := ((cutText ('@' :: sha256Prefix) image).map (·.1)).getD image

/-- A digest in the form `sha256:<value>`, without what stands before an `@`. -/
def normalizeDigest (digest : Str) : Str :=
  if digest = [] then []
  else
    let value := ((cut '@' digest).map (·.2)).getD digest
    if sha256Prefix.isPrefixOf value then value else sha256Prefix ++ value

/-- A first path segment that names a registry host. -/
def registryHost (left : Str) : Bool := left.contains '.' || left.contains ':' || left = "localhost".toList

def dropRegistry (image : Str) : Str :=
  match cut '/' (stripDigest image) with
  | none => stripDigest image
  | some (left,rest) => if registryHost left then rest else stripDigest image

def lastSegment (image : Str) : Str := ((cutLast '/' image).map (·.2)).getD image

def imageHasTag (image : Str) : Bool := (lastSegment (stripDigest image)).contains ':'

def imageTag (image : Str) : Str := ((cutLast ':' (lastSegment (stripDigest image))).map (·.2)).getD []

def imageKey (image : Str) : Str := dropRegistry image

def repoKey (image : Str) : Str :=
  let key := imageKey image
  if (lastSegment key).contains ':' then ((cutLast ':' key).map (·.1)).getD key else key

def dropTag (segment : Str) : Str := ((cutLast ':' segment).map (·.1)).getD segment

def imageRepoRef (image : Str) : Str :=
  match cutLast '/' (stripDigest image) with
  | some (left,last) => left ++ '/' :: dropTag last
  | none => dropTag (stripDigest image)

def imageWithTag (image tag : Str) : Str := imageRepoRef image ++ ':' :: tag

def imageWithDigest (image digest : Str) : Str := imageRepoRef image ++ '@' :: normalizeDigest digest

def tagWordChar (c : Char) : Bool := c.isAlphanum || c = '_'

def tagValueValid : Str → Bool
  | [] => false
  | c :: rest =>
    tagWordChar c && rest.length ≤ 127 && rest.all fun d => tagWordChar d || d = '.' || d = '-'

theorem tagChar_of_valid {tag : Str} (h : tagValueValid tag = true) :
    ∀ c ∈ tag, (tagWordChar c || c = '.' || c = '-') = true := by
  cases tag with
  | nil => simp
  | cons d rest =>
    simp only [tagValueValid,Bool.and_eq_true,List.all_eq_true] at h
    intro c hc
    obtain rfl | hc := List.mem_cons.mp hc
    · simp [h.1.1]
    · exact h.2 c hc

/-- A Compose image stands for a resolved target: the same tagged image, or the same repository. -/
def imageMatchesResolvedTarget (image resolved : Str) (allowRepo : Bool) : Bool :=
  if imageHasTag resolved && imageKey image = imageKey resolved then true
  else allowRepo && repoKey image = repoKey resolved

def digestFromImage (image : Str) : Str :=
  if (cutText ('@' :: sha256Prefix) image).isSome then normalizeDigest (((cut '@' image).map (·.2)).getD [])
  else []

/-- A line that asks for a digest of a valid tag and not for another tag. -/
def isDigestTargetLine (target : WudTarget) : Bool :=
  if target.desiredTag ≠ [] then false
  else if target.digest = [] || !imageHasTag target.first then false
  else tagValueValid (imageTag target.first)

theorem stripDigest_isPrefix (image : Str) : stripDigest image <+: image := by
  unfold stripDigest
  cases h : cutText ('@' :: sha256Prefix) image with
  | none => exact List.prefix_refl image
  | some parts =>
    obtain ⟨left,right⟩ := parts
    refine ⟨'@' :: sha256Prefix ++ right,?_⟩
    rw [eq_of_cutText h,List.append_assoc]
    rfl

theorem mem_normalizeDigest {digest : Str} {c : Char} (h : c ∈ normalizeDigest digest) :
    c ∈ sha256Prefix ∨ c ∈ digest := by
  have hvalue : ∀ d ∈ ((cut '@' digest).map (·.2)).getD digest, d ∈ digest := by
    intro d hd
    cases hcut : cut '@' digest with
    | none =>
      rw [hcut] at hd
      exact hd
    | some parts =>
      rw [hcut] at hd
      rw [(eq_of_cut hcut).1]
      exact List.mem_append_right _ (List.mem_cons_of_mem _ hd)
  unfold normalizeDigest at h
  split at h
  · cases h
  · dsimp only at h
    split at h
    · exact .inr (hvalue c h)
    · rcases List.mem_append.mp h with h | h
      · exact .inl h
      · exact .inr (hvalue c h)

/-- A digest is normal when it names its algorithm and nothing before it. -/
def NormalDigest (digest : Str) : Prop := sha256Prefix <+: digest ∧ '@' ∉ digest

theorem NormalDigest.normalize {digest : Str} (h : NormalDigest digest) : normalizeDigest digest = digest := by
  have hne : digest ≠ [] := by
    rintro rfl
    exact absurd (List.prefix_nil.mp h.1) (by decide)
  rw [normalizeDigest,if_neg hne,cut_eq_none.mpr h.2]
  exact if_pos (List.isPrefixOf_iff_prefix.mpr h.1)

theorem normalDigest_of_value {value : Str} (h : '@' ∉ value) :
    NormalDigest (if sha256Prefix.isPrefixOf value then value else sha256Prefix ++ value) := by
  split
  · rename_i hp
    exact ⟨List.isPrefixOf_iff_prefix.mp hp,h⟩
  · refine ⟨List.prefix_append _ _,?_⟩
    rw [List.mem_append,not_or]
    exact ⟨by decide,h⟩

theorem not_mem_of_count_cut {text left right : Str} (hn : text.count '@' ≤ 1) (h : cut '@' text = some (left,right)) :
    '@' ∉ right := by
  rw [(eq_of_cut h).1,List.count_append,List.count_cons_self] at hn
  apply List.count_eq_zero.mp
  omega

/-- What follows at most one `@` is normalized once and for all. -/
theorem normalDigest_normalizeDigest {digest : Str} (hne : digest ≠ []) (hn : digest.count '@' ≤ 1) :
    NormalDigest (normalizeDigest digest) := by
  rw [normalizeDigest,if_neg hne]
  cases h : cut '@' digest with
  | none => exact normalDigest_of_value (cut_eq_none.mp h)
  | some parts => exact normalDigest_of_value (not_mem_of_count_cut hn h)

/-- The digest an image was given is read back from it. -/
theorem digestFromImage_append {base digest : Str} (hn : base.count '@' ≤ 1) (hd : NormalDigest digest) :
    digestFromImage (base ++ '@' :: digest) = digest := by
  obtain ⟨after,hafter⟩ := hd.1
  have hfound : (cutText ('@' :: sha256Prefix) (base ++ '@' :: digest)).isSome = true := by
    rw [← hafter,← List.cons_append]
    exact cutText_isSome
  rw [digestFromImage,if_pos hfound]
  cases h : cut '@' base with
  | none =>
    rw [cut_append (cut_eq_none.mp h)]
    exact hd.normalize
  | some parts =>
    obtain ⟨left,right⟩ := parts
    obtain ⟨hbase,hleft⟩ := eq_of_cut h
    have hright : '@' ∉ right := not_mem_of_count_cut hn h
    rw [hbase,List.append_assoc,List.cons_append,cut_append hleft]
    change normalizeDigest (right ++ '@' :: digest) = digest
    rw [normalizeDigest,if_neg (by simp),cut_append hright]
    exact if_pos (List.isPrefixOf_iff_prefix.mpr hd.1)

/-- Registry, tag and digest are told apart, and a digest keeps its algorithm. -/
example : (["ghcr.io/a/b:1@sha256:00","host:5000/b","b@sha256:00"].map fun image =>
    (repoKey image.toList,imageTag image.toList,digestFromImage image.toList)) =
    [("a/b".toList,"1".toList,"sha256:00".toList),("b".toList,[],[]),("b".toList,[],"sha256:00".toList)] := by
  decide

end Wudup

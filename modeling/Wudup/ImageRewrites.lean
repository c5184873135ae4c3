import Wudup.Images

/-! What a rewrite of an image reference changes: its tag or digest, and neither its repository nor its registry. -/
namespace Wudup
open Library

/-! The parts of a reference: a front that ends with a slash, and the last segment -/

/-- What may stand before the last path segment. -/
def IsFront (front : Str) : Prop := front = [] ∨ ∃ directory, front = directory ++ ['/']

theorem lastSegment_append {front segment : Str} (hf : IsFront front) (hs : '/' ∉ segment) :
    lastSegment (front ++ segment) = segment := by
  rw [lastSegment]
  obtain rfl | ⟨directory,rfl⟩ := hf
  · rw [List.nil_append,cutLast_eq_none.mpr hs]
    rfl
  · rw [List.append_assoc,List.singleton_append,cutLast_append hs]
    rfl

theorem exists_front (text : Str) : ∃ front segment, IsFront front ∧ '/' ∉ segment ∧ text = front ++ segment := by
  cases h : cutLast '/' text with
  | none => exact ⟨[],text,.inl rfl,cutLast_eq_none.mp h,rfl⟩
  | some parts =>
    obtain ⟨directory,segment⟩ := parts
    obtain ⟨htext,hs⟩ := eq_of_cutLast h
    refine ⟨directory ++ ['/'],segment,.inr ⟨directory,rfl⟩,hs,?_⟩
    rw [htext,List.append_assoc,List.singleton_append]

/-- The front without a registry. -/
def registryFront (front : Str) : Str :=
  match cut '/' front with
  | none => front
  | some (left,rest) => if registryHost left then rest else front

theorem isFront_registryFront {front : Str} (h : IsFront front) : IsFront (registryFront front) := by
  unfold registryFront
  split
  · exact h
  · rename_i left rest hcut
    split
    · obtain rfl | ⟨directory,rfl⟩ := h
      · cases hcut
      · obtain ⟨hsplit,-⟩ := eq_of_cut hcut
        obtain hnil | ⟨more,last,rfl⟩ := List.eq_nil_or_concat' rest
        · exact .inl hnil
        · right
          have hlast := congrArg List.getLast? hsplit
          rw [← List.cons_append,← List.append_assoc,List.getLast?_concat,List.getLast?_concat] at hlast
          cases hlast
          exact ⟨more,rfl⟩
    · exact h

section
variable {image front segment : Str} (himage : stripDigest image = front ++ segment) (hf : IsFront front)
  (hs : '/' ∉ segment)
include himage hf hs

theorem dropRegistry_eq : dropRegistry image = registryFront front ++ segment := by
  rw [dropRegistry,himage,registryFront]
  cases hcut : cut '/' front with
  | none =>
    rw [cut_eq_none.mpr]
    rw [List.mem_append,not_or]
    exact ⟨cut_eq_none.mp hcut,hs⟩
  | some parts =>
    obtain ⟨left,rest⟩ := parts
    obtain ⟨rfl,hleft⟩ := eq_of_cut hcut
    rw [List.append_assoc,List.cons_append,cut_append hleft]
    dsimp only
    split
    · rfl
    · rw [List.append_assoc,List.cons_append]

theorem imageTag_eq : imageTag image = ((cutLast ':' segment).map (·.2)).getD [] := by
  rw [imageTag,himage,lastSegment_append hf hs]

theorem imageHasTag_eq : imageHasTag image = segment.contains ':' := by
  rw [imageHasTag,himage,lastSegment_append hf hs]

theorem imageRepoRef_eq : imageRepoRef image = front ++ dropTag segment := by
  rw [imageRepoRef,himage]
  obtain rfl | ⟨directory,rfl⟩ := hf
  · rw [List.nil_append,cutLast_eq_none.mpr hs,List.nil_append]
  · rw [List.append_assoc,List.singleton_append,cutLast_append hs,List.append_assoc,List.singleton_append]

theorem repoKey_eq : repoKey image = registryFront front ++ dropTag segment := by
  rw [repoKey,imageKey,dropRegistry_eq himage hf hs,lastSegment_append (isFront_registryFront hf) hs]
  cases hcut : cutLast ':' segment with
  | none =>
    rw [if_neg (by simpa using cutLast_eq_none.mp hcut),dropTag,hcut]
    rfl
  | some parts =>
    obtain ⟨name,tag⟩ := parts
    obtain ⟨rfl,htag⟩ := eq_of_cutLast hcut
    rw [if_pos (by simp),← List.append_assoc,cutLast_append htag,dropTag,hcut]
    rfl

end

theorem dropTag_isPrefix (segment : Str) : dropTag segment <+: segment := by
  rw [dropTag]
  cases hcut : cutLast ':' segment with
  | none => exact List.prefix_refl segment
  | some parts => exact ⟨_,(eq_of_cutLast hcut).1.symm⟩

theorem colon_not_mem_dropTag {segment : Str} (h : segment.count ':' ≤ 1) : ':' ∉ dropTag segment := by
  rw [dropTag]
  cases hcut : cutLast ':' segment with
  | none => exact cutLast_eq_none.mp hcut
  | some parts =>
    have hnone : parts.1.count ':' = 0 := by
      rw [(eq_of_cutLast hcut).1,List.count_append,List.count_cons_self] at h
      omega
    exact List.count_eq_zero.mp hnone

@[simp] theorem dropTag_append {name tag : Str} (h : ':' ∉ tag) : dropTag (name ++ ':' :: tag) = name := by
  rw [dropTag,cutLast_append h]
  rfl

theorem dropTag_eq_self {name : Str} (h : ':' ∉ name) : dropTag name = name := by
  rw [dropTag,cutLast_eq_none.mpr h]
  rfl

/-! Digests -/

theorem not_infix_stripDigest (image : Str) : ¬ ('@' :: sha256Prefix) <:+: stripDigest image := by
  rw [stripDigest]
  cases hcut : cutText ('@' :: sha256Prefix) image with
  | none => exact cutText_eq_none.mp hcut
  | some parts => exact not_infix_of_cutText (List.cons_ne_nil _ _) hcut

theorem stripDigest_eq_self {image : Str} (h : ¬ ('@' :: sha256Prefix) <:+: image) : stripDigest image = image := by
  rw [stripDigest,cutText_eq_none.mpr h]
  rfl

theorem sha256Prefix_isPrefix_normalizeDigest {digest : Str} (h : digest ≠ []) :
    sha256Prefix <+: normalizeDigest digest := by
  rw [normalizeDigest,if_neg h]
  dsimp only
  split
  · rename_i hp
    exact List.isPrefixOf_iff_prefix.mp hp
  · exact List.prefix_append _ _

theorem stripDigest_append {base digest : Str} (hb : ¬ ('@' :: sha256Prefix) <:+: base) (hd : digest ≠ []) :
    stripDigest (base ++ '@' :: normalizeDigest digest) = base := by
  obtain ⟨value,hvalue⟩ := sha256Prefix_isPrefix_normalizeDigest hd
  rw [← hvalue,stripDigest,← List.cons_append,cutText_append (by decide) hb]
  rfl

/-- The text of a digest's name, where its value is missing. -/
def openDigest : Str := "@sha256".toList

theorem digestMark_eq : '@' :: sha256Prefix = openDigest ++ [':'] := rfl

/-- A tag without `@` and `:` completes a digest only where one was left open. -/
theorem not_infix_append_tag {base tag : Str} (hb : ¬ ('@' :: sha256Prefix) <:+: base) (hopen : ¬ openDigest <:+ base)
    (ht : ':' ∉ tag) : ¬ ('@' :: sha256Prefix) <:+: (base ++ ':' :: tag) := by
  rintro ⟨before,after,heq⟩
  have hsplit : before ++ openDigest ++ ':' :: after = base ++ ':' :: tag := by
    rw [← heq,digestMark_eq]
    simp
  obtain ⟨more,hbase,hmore⟩ | ⟨more,hbase,hmore⟩ := List.append_eq_append_iff.mp hsplit
  · cases more with
    | nil => exact hopen ⟨before,by rw [hbase,List.append_nil]⟩
    | cons c more =>
      obtain ⟨rfl,-⟩ := List.cons.inj hmore
      exact hb ⟨before,more,by rw [hbase,digestMark_eq]; simp⟩
  · cases more with
    | nil => exact hopen ⟨before,by rw [hbase,List.append_nil]⟩
    | cons c more =>
      obtain ⟨-,rfl⟩ := List.cons.inj hmore
      exact ht (by simp)

/-! Rewritten references -/

theorem not_mem_of_valid {tag : Str} (h : tagValueValid tag = true) : '/' ∉ tag ∧ ':' ∉ tag := by
  constructor
  · exact fun hmem => absurd (tagChar_of_valid h '/' hmem) (by decide)
  · exact fun hmem => absurd (tagChar_of_valid h ':' hmem) (by decide)

theorem imageRepoRef_isPrefix (image : Str) : imageRepoRef image <+: stripDigest image := by
  obtain ⟨front,segment,hf,hs,himage⟩ := exists_front (stripDigest image)
  rw [imageRepoRef_eq himage hf hs,himage,List.prefix_append_right_inj]
  exact dropTag_isPrefix segment

/-- No digest is left open before the tag, if none is at the end. -/
theorem imageRepoRef_closed {image : Str} (h : ¬ openDigest <:+ stripDigest image) :
    ¬ openDigest <:+ imageRepoRef image := by
  obtain ⟨front,segment,hf,hs,himage⟩ := exists_front (stripDigest image)
  rw [imageRepoRef_eq himage hf hs]
  rw [himage] at h
  cases hcut : cutLast ':' segment with
  | none => rwa [dropTag_eq_self (cutLast_eq_none.mp hcut)]
  | some parts =>
    obtain ⟨name,tag⟩ := parts
    obtain ⟨rfl,htag⟩ := eq_of_cutLast hcut
    rw [dropTag_append htag]
    rintro ⟨before,heq⟩
    apply not_infix_stripDigest image
    refine ⟨before,tag,?_⟩
    rw [himage,digestMark_eq,← List.append_assoc,← List.append_assoc front,← heq]
    simp

section
variable {image tag digest : Str}

theorem imageRepoRef_no_digest (image : Str) : ¬ ('@' :: sha256Prefix) <:+: imageRepoRef image :=
  fun h => not_infix_stripDigest image (h.trans (imageRepoRef_isPrefix image).isInfix)

theorem stripDigest_imageWithTag (hopen : ¬ openDigest <:+ stripDigest image) (ht : tagValueValid tag = true) :
    stripDigest (imageWithTag image tag) = imageRepoRef image ++ ':' :: tag :=
  stripDigest_eq_self (not_infix_append_tag (imageRepoRef_no_digest image) (imageRepoRef_closed hopen)
    (not_mem_of_valid ht).2)

theorem stripDigest_imageWithDigest (hd : digest ≠ []) :
    stripDigest (imageWithDigest image digest) = imageRepoRef image :=
  stripDigest_append (imageRepoRef_no_digest image) hd

/-- The parts of a reference with a tag: the front and the repository of the image, and the tag. -/
theorem exists_parts_imageWithTag (hopen : ¬ openDigest <:+ stripDigest image) (ht : tagValueValid tag = true) :
    ∃ front segment, IsFront front ∧ '/' ∉ segment ∧ stripDigest image = front ++ segment ∧
      '/' ∉ dropTag segment ++ ':' :: tag ∧
      stripDigest (imageWithTag image tag) = front ++ (dropTag segment ++ ':' :: tag) := by
  obtain ⟨front,segment,hf,hs,himage⟩ := exists_front (stripDigest image)
  refine ⟨front,segment,hf,hs,himage,?_,?_⟩
  · rw [List.mem_append,List.mem_cons,not_or,not_or]
    exact ⟨fun h => hs ((dropTag_isPrefix segment).subset h),by decide,(not_mem_of_valid ht).1⟩
  · rw [stripDigest_imageWithTag hopen ht,imageRepoRef_eq himage hf hs,List.append_assoc]

section
variable (hopen : ¬ openDigest <:+ stripDigest image) (ht : tagValueValid tag = true)
include hopen ht

theorem imageTag_imageWithTag : imageTag (imageWithTag image tag) = tag := by
  obtain ⟨front,segment,hf,-,-,hs,hwith⟩ := exists_parts_imageWithTag hopen ht
  rw [imageTag_eq hwith hf hs,cutLast_append (not_mem_of_valid ht).2]
  rfl

theorem imageHasTag_imageWithTag : imageHasTag (imageWithTag image tag) = true := by
  obtain ⟨front,segment,hf,-,-,hs,hwith⟩ := exists_parts_imageWithTag hopen ht
  rw [imageHasTag_eq hwith hf hs]
  simp

theorem imageRepoRef_imageWithTag : imageRepoRef (imageWithTag image tag) = imageRepoRef image := by
  obtain ⟨front,segment,hf,hs,himage,hs',hwith⟩ := exists_parts_imageWithTag hopen ht
  rw [imageRepoRef_eq hwith hf hs',imageRepoRef_eq himage hf hs,dropTag_append (not_mem_of_valid ht).2]

theorem repoKey_imageWithTag : repoKey (imageWithTag image tag) = repoKey image := by
  obtain ⟨front,segment,hf,hs,himage,hs',hwith⟩ := exists_parts_imageWithTag hopen ht
  rw [repoKey_eq hwith hf hs',repoKey_eq himage hf hs,dropTag_append (not_mem_of_valid ht).2]

/-- What a tagged reference is matched by. -/
theorem imageKey_imageWithTag : imageKey (imageWithTag image tag) = repoKey image ++ ':' :: tag := by
  obtain ⟨front,segment,hf,hs,himage,hs',hwith⟩ := exists_parts_imageWithTag hopen ht
  rw [imageKey,dropRegistry_eq hwith hf hs',repoKey_eq himage hf hs,List.append_assoc]

end

section
variable (hcolon : (lastSegment (stripDigest image)).count ':' ≤ 1) (hd : digest ≠ [])
include hcolon hd

/-- The parts of a reference with a digest: those of the image, without its tag. -/
theorem exists_parts_imageWithDigest :
    ∃ front segment, IsFront front ∧ '/' ∉ segment ∧ stripDigest image = front ++ segment ∧ ':' ∉ dropTag segment ∧
      '/' ∉ dropTag segment ∧ stripDigest (imageWithDigest image digest) = front ++ dropTag segment := by
  obtain ⟨front,segment,hf,hs,himage⟩ := exists_front (stripDigest image)
  rw [himage,lastSegment_append hf hs] at hcolon
  refine ⟨front,segment,hf,hs,himage,colon_not_mem_dropTag hcolon,?_,?_⟩
  · exact fun h => hs ((dropTag_isPrefix segment).subset h)
  · rw [stripDigest_imageWithDigest hd,imageRepoRef_eq himage hf hs]

theorem imageHasTag_imageWithDigest : imageHasTag (imageWithDigest image digest) = false := by
  obtain ⟨front,segment,hf,-,-,hnone,hs,hwith⟩ := exists_parts_imageWithDigest hcolon hd
  rw [imageHasTag_eq hwith hf hs]
  simpa using hnone

theorem imageRepoRef_imageWithDigest : imageRepoRef (imageWithDigest image digest) = imageRepoRef image := by
  obtain ⟨front,segment,hf,hs,himage,hnone,hs',hwith⟩ := exists_parts_imageWithDigest hcolon hd
  rw [imageRepoRef_eq hwith hf hs',imageRepoRef_eq himage hf hs,dropTag_eq_self hnone]

theorem repoKey_imageWithDigest : repoKey (imageWithDigest image digest) = repoKey image := by
  obtain ⟨front,segment,hf,hs,himage,hnone,hs',hwith⟩ := exists_parts_imageWithDigest hcolon hd
  rw [repoKey_eq hwith hf hs',repoKey_eq himage hf hs,dropTag_eq_self hnone]

end

end

/-- A tagged reference matches another one exactly when both have one repository and one tag. -/
theorem imageMatchesResolvedTarget_imageWithTag {i j t u : Str} (hi : ¬ openDigest <:+ stripDigest i)
    (hj : ¬ openDigest <:+ stripDigest j) (ht : tagValueValid t = true) (hu : tagValueValid u = true) :
    imageMatchesResolvedTarget (imageWithTag i t) (imageWithTag j u) false = true ↔ repoKey i = repoKey j ∧ t = u := by
  have hkeys : imageKey (imageWithTag i t) = imageKey (imageWithTag j u) ↔ repoKey i = repoKey j ∧ t = u := by
    rw [imageKey_imageWithTag hi ht,imageKey_imageWithTag hj hu]
    constructor
    · intro h
      have hcut := congrArg (cutLast ':') h
      rw [cutLast_append (not_mem_of_valid ht).2,cutLast_append (not_mem_of_valid hu).2] at hcut
      exact Prod.mk.inj (Option.some.inj hcut)
    · rintro ⟨hrepo,rfl⟩
      rw [hrepo]
  rw [imageMatchesResolvedTarget,imageHasTag_imageWithTag hj hu,← hkeys]
  simp

/-- A rewritten reference keeps its repository, has the tag or the digest it was given, and is found again by what
it was rewritten to. -/
theorem image_rewrite_algebra {i j t u d : Str} (hcolon : (lastSegment (stripDigest i)).count ':' ≤ 1)
    (hi : ¬ openDigest <:+ stripDigest i) (hj : ¬ openDigest <:+ stripDigest j) (ht : tagValueValid t = true)
    (hu : tagValueValid u = true) (hd : d ≠ []) :
    imageTag (imageWithTag i t) = t ∧
      (imageRepoRef (imageWithTag i t) = imageRepoRef i ∧ repoKey (imageWithTag i t) = repoKey i) ∧
      (imageRepoRef (imageWithDigest i d) = imageRepoRef i ∧ repoKey (imageWithDigest i d) = repoKey i) ∧
      imageHasTag (imageWithDigest i d) = false ∧
      (∀ allowRepo, imageMatchesResolvedTarget (imageWithTag i t) (imageWithTag i t) allowRepo = true) ∧
      imageMatchesResolvedTarget (imageWithDigest i d) (imageWithDigest i d) true = true ∧
      (imageMatchesResolvedTarget (imageWithTag i t) (imageWithTag j u) false = true ↔
        repoKey i = repoKey j ∧ t = u) := by
  refine ⟨imageTag_imageWithTag hi ht,⟨imageRepoRef_imageWithTag hi ht,repoKey_imageWithTag hi ht⟩,
    ⟨imageRepoRef_imageWithDigest hcolon hd,repoKey_imageWithDigest hcolon hd⟩,imageHasTag_imageWithDigest hcolon hd,
    ?_,?_,imageMatchesResolvedTarget_imageWithTag hi hj ht hu⟩
  · intro allowRepo
    simp [imageMatchesResolvedTarget,imageHasTag_imageWithTag hi ht]
  · simp [imageMatchesResolvedTarget]

namespace Example

/-- A reference with a registry, a port, a tag and a digest. -/
def pinnedImage : Str := "host:5000/team/app:1.2@sha256:00".toList

theorem pinned_image_rewritten :
    imageTag (imageWithTag pinnedImage "1.3".toList) = "1.3".toList ∧
      imageMatchesResolvedTarget (imageWithTag pinnedImage "1.3".toList) (imageWithTag "team/app".toList "1.3".toList)
        false = true := by
  have halgebra := @image_rewrite_algebra pinnedImage "team/app".toList "1.3".toList "1.3".toList "00".toList
    (by decide) (by decide) (by decide) (by decide) (by decide) (by decide)
  exact ⟨halgebra.1,halgebra.2.2.2.2.2.2.mpr ⟨by decide,rfl⟩⟩

/-- A reference that ends where a digest's value would follow takes the tag for that value. -/
theorem open_digest_swallows_tag : ∃ i : Str, (lastSegment i).count ':' ≤ 1 ∧ stripDigest i = i ∧
    tagValueValid "1.0".toList = true ∧ imageTag (imageWithTag i "1.0".toList) ≠ "1.0".toList ∧
    repoKey (imageWithTag i "1.0".toList) ≠ repoKey i :=
  ⟨"nginx@sha256".toList,by decide,by decide,by decide,by decide,by decide⟩

end Example

end Wudup

import Mathlib.Data.List.Basic
import Wudup.DigestVerifier
import Wudup.Library.Traverse

/-! What a verified digest says about the local image, and an exact subject about the registry's documents. -/
namespace Wudup
open Library

theorem platformMatches_iff {found wanted : ImagePlatform} : platformMatches found wanted = true ↔ found = wanted := by
  cases found
  cases wanted
  simp only [platformMatches,ImagePlatform.mk.injEq]
  grind

namespace ManifestDocument
variable (document : ManifestDocument) (rules : CaseRules)

/-- A document lists a digest as one of its children. -/
def Lists (digest : Str) : Prop := ∃ item ∈ document.manifestItems, itemDigest item = some digest

/-- What an item of an index says: the digest of a child and its platform. -/
def ItemIs (item : Details) (digest : Str) (platform : ImagePlatform) : Prop :=
  itemDigest item = some digest ∧ itemPlatform rules item = some platform

/-- The document has one child of the platform, and the digest is that child's. -/
def OnlyChild (platform : ImagePlatform) (digest : Str) : Prop :=
  ∃ before item after, document.manifestItems = before ++ item :: after ∧ ItemIs rules item digest platform ∧
    ∀ other ∈ before ++ after, ∀ d ≠ [], ¬ItemIs rules other d platform

/-- The first child with the digest is of the platform. -/
def FirstChild (platform : ImagePlatform) (digest : Str) : Prop :=
  ∃ before item after, document.manifestItems = before ++ item :: after ∧ ItemIs rules item digest platform ∧
    ∀ other ∈ before, itemDigest other ≠ some digest

variable {document} {rules}

theorem childDigest_ne_nil {digest : Str} (h : document.childDigest digest ≠ []) : document.Lists digest := by
  unfold childDigest at h
  split at h
  · rename_i hany
    simpa [Lists] using hany
  · exact absurd rfl h

theorem mem_childDigests {digest : Str} (h : digest ∈ document.childDigests) : document.Lists digest := by
  simpa [childDigests,Lists] using (List.mem_filter.mp h).1

theorem childPlatform_eq_some {digest : Str} {platform : ImagePlatform} :
    document.childPlatform rules digest = some platform ↔ document.FirstChild rules platform digest := by
  unfold childPlatform FirstChild ItemIs
  rw [Option.bind_eq_some_iff]
  constructor
  · intro ⟨item,hfind,hplatform⟩
    obtain ⟨hitem,before,after,heq,hbefore⟩ := List.find?_eq_some_iff_append.mp hfind
    exact ⟨before,item,after,heq,⟨by simpa using hitem,hplatform⟩,by simpa using hbefore⟩
  · intro ⟨before,item,after,heq,⟨hitem,hplatform⟩,hbefore⟩
    refine ⟨item,List.find?_eq_some_iff_append.mpr ⟨by simpa using hitem,before,after,heq,?_⟩,hplatform⟩
    simpa using hbefore

theorem platformDigest_eq_some {platform : ImagePlatform} {item : Details} {digest : Str} :
    platformDigest rules platform item = some digest ↔ digest ≠ [] ∧ ItemIs rules item digest platform := by
  unfold platformDigest ItemIs
  cases hd : itemDigest item with
  | none => simp
  | some d =>
    dsimp only
    by_cases hnil : d = []
    · simp only [hnil,if_true,Option.some.injEq]
      constructor
      · intro h
        cases h
      · intro ⟨hne,heq,_⟩
        exact absurd heq.symm hne
    · cases hp : itemPlatform rules item with
      | none => simp [hnil]
      | some p =>
        by_cases hpp : p = platform
        · subst hpp
          have hself : platformMatches p p = true := platformMatches_iff.mpr rfl
          simp only [hnil,if_false,Option.any_some,hself,if_true,Option.some.injEq,and_true]
          constructor
          · intro h
            exact ⟨h ▸ hnil,h⟩
          · exact fun h => h.2
        · have hother : platformMatches p platform = false := by
            rw [Bool.eq_false_iff]
            exact mt platformMatches_iff.mp hpp
          simp [hnil,hother,hpp]

/-- A filtered list of one element comes from one element of the list. -/
theorem filterMap_eq_singleton {α β : Type} {f : α → Option β} {xs : List α} {y : β} :
    xs.filterMap f = [y] ↔
      ∃ before x after, xs = before ++ x :: after ∧ f x = some y ∧ ∀ z ∈ before ++ after, f z = none := by
  constructor
  · intro h
    induction xs with
    | nil => cases h
    | cons x xs ih =>
      cases hx : f x with
      | none =>
        rw [List.filterMap_cons_none hx] at h
        obtain ⟨before,x',after,rfl,hy,hnone⟩ := ih h
        exact ⟨x :: before,x',after,rfl,hy,by simpa [hx] using hnone⟩
      | some y' =>
        rw [List.filterMap_cons_some hx] at h
        obtain ⟨rfl,hnil⟩ := List.cons.inj h
        exact ⟨[],x,xs,rfl,hx,List.filterMap_eq_nil_iff.mp hnil⟩
  · intro ⟨before,x,after,hxs,hy,hnone⟩
    have hbefore : before.filterMap f = [] :=
      List.filterMap_eq_nil_iff.mpr fun z hz => hnone z (List.mem_append_left _ hz)
    have hafter : after.filterMap f = [] :=
      List.filterMap_eq_nil_iff.mpr fun z hz => hnone z (List.mem_append_right _ hz)
    rw [hxs,List.filterMap_append,List.filterMap_cons_some hy,hbefore,hafter,List.nil_append]

theorem onlyChild_iff {platform : ImagePlatform} {digest : Str} (hne : digest ≠ []) :
    document.OnlyChild rules platform digest ↔ document.platformChildren rules platform = [digest] := by
  unfold OnlyChild platformChildren
  rw [filterMap_eq_singleton]
  have hnone : ∀ item, platformDigest rules platform item = none ↔ ∀ d ≠ [], ¬ItemIs rules item d platform := by
    intro item
    rw [Option.eq_none_iff_forall_ne_some]
    constructor
    · intro h d hd hitem
      exact h d (platformDigest_eq_some.mpr ⟨hd,hitem⟩)
    · intro h d hd
      obtain ⟨hd,hitem⟩ := platformDigest_eq_some.mp hd
      exact h d hd hitem
  simp only [platformDigest_eq_some,hnone,hne,ne_eq,not_false_eq_true,true_and]

theorem matchingPlatformChildDigest_onlyChild {platform : ImagePlatform}
    (h : document.matchingPlatformChildDigest rules platform ≠ []) :
    document.OnlyChild rules platform (document.matchingPlatformChildDigest rules platform) := by
  rw [onlyChild_iff h]
  unfold matchingPlatformChildDigest at h ⊢
  split at h
  · rename_i heq
    rw [heq]
  · exact absurd rfl h

end ManifestDocument

section
variable (verifier : DigestVerifier) (image : RegistryImageRef) (document : ManifestDocument)

/-- The document of the tag is the one of the digest: it has the digest, or it has none and is the same manifest
as the document the registry gives for the digest. -/
def HasDigest (digest : Str) : Prop :=
  document.digest = digest ∨ document.digest = [] ∧
    ∃ other, verifier.fetch image digest = .ok other ∧ sameManifest document.payload other.payload = true

/-- The local image is the manifest of a digest: its id is the digest, or the config digest of the document the
registry gives for it. -/
def IsManifest (localImageId digest : Str) : Prop :=
  localImageId = digest ∨ ∃ other, verifier.fetch image digest = .ok other ∧ localImageId = other.configDigest

/-- The local image is a document of the digest: its id is the digest, or it is the config of the manifest, or one of
the children of the index. -/
def IsDocument (localImageId digest : Str) : Prop :=
  localImageId = digest ∨ document.isImageManifest = true ∧ localImageId = document.configDigest ∨
    document.isImageManifest = false ∧ ∃ child, document.Lists child ∧ IsManifest verifier image localImageId child

/-- The local image is the index, which lists the digest first for a platform the local image runs on. -/
def SelectsChild (name localImageId digest : Str) : Prop :=
  localImageId = document.digest ∧ ∃ child platform, document.FirstChild verifier.rules child digest ∧
    verifier.docker.imagePlatform name = some platform ∧ sameLocalPlatform child platform = true

/-- Why an expected digest counts as reached: a local repo digest is that digest; or the current document of the
tag is that digest and the local image is that document; or it is an index that contains the digest and the local
image is that child. -/
def Reached (name expected : Str) : Prop :=
  (∃ digest ∈ verifier.docker.repoDigests name, repoDigestValue digest = expected) ∨
    verifier.docker.imageId name ≠ [] ∧ ∃ image document, parseRegistryImage verifier.rules name = some image ∧
      verifier.fetch image image.tag = .ok document ∧
      (HasDigest verifier image document expected ∧
          IsDocument verifier image document (verifier.docker.imageId name) expected ∨
        document.isIndex = true ∧ document.Lists expected ∧
          (IsManifest verifier image (verifier.docker.imageId name) expected ∨
            SelectsChild verifier document name (verifier.docker.imageId name) expected))

end

section Verify
variable {verifier : DigestVerifier} {image : RegistryImageRef} {document : ManifestDocument} {found : LocalImage}
  {expected : Str}

theorem imageIdMatches_iff {localImageId configDigest digest : Str} :
    imageIdMatches localImageId configDigest [digest] = true ↔
      localImageId ≠ [] ∧ (localImageId = configDigest ∨ localImageId = digest) := by
  simp [imageIdMatches]

theorem tryFetch_eq_some {reference : Str} :
    verifier.tryFetch image reference = .ok (some document) ↔ verifier.fetch image reference = .ok document := by
  unfold DigestVerifier.tryFetch
  split <;> simp_all

/-- A child found among the digests is one of them, and it is the local image. -/
theorem matchingChild_isManifest {localImageId child : Str} {digests : List Str}
    (h : verifier.matchingChild image localImageId digests = .ok (some (child,document))) :
    child ∈ digests ∧ IsManifest verifier image localImageId child := by
  induction digests with
  | nil => cases h
  | cons digest rest ih =>
    rw [DigestVerifier.matchingChild] at h
    have hrest : verifier.matchingChild image localImageId rest = .ok (some (child,document)) →
        child ∈ digest :: rest ∧ IsManifest verifier image localImageId child := by
      intro h
      exact ⟨List.mem_cons_of_mem _ (ih h).1,(ih h).2⟩
    split at h
    · cases h
    · exact hrest h
    · rename_i other hfetch
      split at h
      · rename_i hmatch
        cases h
        obtain ⟨_,hid⟩ := imageIdMatches_iff.mp hmatch
        refine ⟨List.mem_cons_self,?_⟩
        rcases hid with hid | hid
        · exact Or.inr ⟨_,tryFetch_eq_some.mp hfetch,hid⟩
        · exact Or.inl hid
      · exact hrest h

theorem verifyIndexManifestDocument_isDocument {result : DigestCheckResult}
    (hd : document.isImageManifest = false)
    (h : verifier.verifyIndexManifestDocument image document expected found = .ok result) (hok : result.ok = true)
    (hdigest : DigestVerifier.tagDigestOr document expected = expected) :
    IsDocument verifier image document found.imageId expected := by
  unfold DigestVerifier.verifyIndexManifestDocument at h
  dsimp only at h
  rw [hdigest] at h
  split at h
  · rename_i hmatch
    obtain ⟨hne,hid⟩ := imageIdMatches_iff.mp hmatch
    exact Or.inl (hid.resolve_left hne)
  · split at h
    · cases h
    · rename_i child other hchild
      obtain ⟨hmem,himage⟩ := matchingChild_isManifest hchild
      exact Or.inr (Or.inr ⟨hd,child,ManifestDocument.mem_childDigests hmem,himage⟩)
    · cases h
      cases hok

theorem verifyTagDocument_isDocument {result : DigestCheckResult}
    (h : verifier.verifyTagDocument image document expected found = .ok result) (hok : result.ok = true)
    (hdigest : DigestVerifier.tagDigestOr document expected = expected) :
    IsDocument verifier image document found.imageId expected := by
  unfold DigestVerifier.verifyTagDocument at h
  split at h
  · rename_i hd
    cases h
    simp only [DigestVerifier.verifyImageManifestDocument,hdigest] at hok
    obtain ⟨_,hid⟩ := imageIdMatches_iff.mp hok
    rcases hid with hid | hid
    · exact Or.inr (Or.inl ⟨hd,hid⟩)
    · exact Or.inl hid
  · rename_i hd
    exact verifyIndexManifestDocument_isDocument (by simpa using hd) h hok hdigest

theorem verifyExpectedManifest_child {result : DigestCheckResult}
    (h : verifier.verifyExpectedManifest image expected document found = .ok result) (hok : result.ok = true) :
    IsManifest verifier image found.imageId expected ∨
      SelectsChild verifier document found.image found.imageId expected := by
  unfold DigestVerifier.verifyExpectedManifest at h
  split at h
  · rename_i hselects
    right
    unfold DigestVerifier.localIndexSelectsChild at hselects
    split at hselects
    · cases hselects
    · rename_i hid
      simp only [Bool.or_eq_true,decide_eq_true_eq,not_or,ne_eq,not_not] at hid
      split at hselects
      · cases hselects
      · rename_i child hchild
        obtain ⟨platform,hplatform,hsame⟩ := (Option.any_eq_true _ _).mp hselects
        exact ⟨hid.2,child,platform,ManifestDocument.childPlatform_eq_some.mp hchild,hplatform,hsame⟩
  · left
    split at h
    · cases h
    · cases h
      cases hok
    · rename_i other hfetch
      cases h
      obtain ⟨_,hid⟩ := imageIdMatches_iff.mp hok
      rcases hid with hid | hid
      · exact Or.inr ⟨other,hfetch,hid⟩
      · exact Or.inl hid

theorem verifyCurrent_reached {result : DigestCheckResult}
    (h : verifier.verifyCurrent image document expected found = .ok result) (hok : result.ok = true) :
    HasDigest verifier image document expected ∧ IsDocument verifier image document found.imageId expected ∨
      document.isIndex = true ∧ document.Lists expected ∧
        (IsManifest verifier image found.imageId expected ∨
          SelectsChild verifier document found.image found.imageId expected) := by
  have hdocument : document.digest = expected ∨ document.digest = [] →
      DigestVerifier.tagDigestOr document expected = expected := by
    unfold DigestVerifier.tagDigestOr
    intro hdigest
    split
    · rename_i hne
      exact hdigest.resolve_right hne
    · rfl
  unfold DigestVerifier.verifyCurrent at h
  split at h
  · rename_i hdigest
    exact Or.inl ⟨Or.inl hdigest,verifyTagDocument_isDocument h hok (hdocument (Or.inl hdigest))⟩
  · split at h
    · rename_i hlists
      simp only [Bool.and_eq_true,decide_eq_true_eq] at hlists
      exact Or.inr ⟨hlists.1,ManifestDocument.childDigest_ne_nil hlists.2,verifyExpectedManifest_child h hok⟩
    · split at h
      · rename_i hnil
        split at h
        · cases h
        · cases h
          cases hok
        · rename_i other hother
          split at h
          · rename_i hsame
            have hhas : HasDigest verifier image document expected :=
              Or.inr ⟨hnil,other,tryFetch_eq_some.mp hother,hsame⟩
            exact Or.inl ⟨hhas,verifyTagDocument_isDocument h hok (hdocument (Or.inr hnil))⟩
          · cases h
            cases hok
      · cases h
        cases hok

theorem verify_reached {name : Str} (hok : (verifier.verify name expected).ok = true) :
    Reached verifier name expected := by
  unfold DigestVerifier.verify at hok
  split at hok
  · rename_i result h
    unfold DigestVerifier.verifyFound at h
    split at h
    · rename_i hany
      left
      simpa [DigestVerifier.localImage] using hany
    · split at h
      · cases h
        cases hok
      · rename_i image hparse
        split at h
        · cases h
          cases hok
        · rename_i hid
          split at h
          · cases h
          · cases h
            cases hok
          · rename_i document hfetch
            right
            exact ⟨hid,image,document,hparse,hfetch,verifyCurrent_reached h hok⟩
  · cases hok

/-- The digest a tag stands for: the one its document states, or for an index without one the registry's. -/
def StandsFor (verifier : DigestVerifier) (image : RegistryImageRef) (document : ManifestDocument) (digest : Str) :
    Prop :=
  normalizeDigest (DigestVerifier.statedDigest document) = digest ∨
    document.isIndex = true ∧ normalizeDigest (DigestVerifier.statedDigest document) = [] ∧
      verifier.resolveIndexDigest image = .ok digest

/-- A tag digest is verified if the tag stands for it, if the index of the tag lists it for a real platform, or if the
tag has no digest and its manifest is that of the digest. -/
theorem verifyTagDigest_current {name reported : Str} (hok : (verifier.verifyTagDigest name reported).ok = true) :
    ∃ image document, parseRegistryImage verifier.rules name = some image ∧
      verifier.fetch image image.tag = .ok document ∧
      (StandsFor verifier image document (normalizeDigest reported) ∨
        (document.isIndex = true ∧ ∃ item ∈ document.manifestItems,
          ManifestDocument.itemDigest item = some (normalizeDigest reported) ∧
            (ManifestDocument.itemPlatform verifier.rules item).isSome = true) ∨
        ∃ other, verifier.fetch image (normalizeDigest reported) = .ok other ∧
          sameManifest document.payload other.payload = true) := by
  unfold DigestVerifier.verifyTagDigest at hok
  dsimp only at hok
  split at hok
  · cases hok
  · split at hok
    · cases hok
    · rename_i image hparse
      split at hok
      · cases hok
      · cases hok
      · rename_i document hfetch
        refine ⟨image,document,hparse,hfetch,?_⟩
        split at hok
        · cases hok
        · rename_i tagDigest htag
          unfold DigestVerifier.verifyCurrentTag at hok
          dsimp only at hok
          split at hok
          · rename_i hcurrent
            left
            rw [← hcurrent]
            unfold DigestVerifier.currentDigest at htag
            split at htag
            · rename_i hindex
              simp only [Bool.and_eq_true,decide_eq_true_eq] at hindex
              exact Or.inr ⟨hindex.2,hindex.1,htag⟩
            · exact Or.inl (Except.ok.inj htag)
          · split at hok
            · rename_i hlists
              simp only [Bool.and_eq_true,decide_eq_true_eq] at hlists
              obtain ⟨hindex,hchild⟩ := hlists
              unfold ManifestDocument.platformChildDigest at hchild
              split at hchild
              · rename_i hany
                obtain ⟨item,hitem,hdigest⟩ := List.any_eq_true.mp hany
                simp only [Bool.and_eq_true,decide_eq_true_eq] at hdigest
                exact Or.inr (Or.inl ⟨hindex,item,hitem,hdigest⟩)
              · exact absurd rfl hchild
            · split at hok
              · cases hok
              · split at hok
                · cases hok
                · cases hok
                · rename_i other hother
                  split at hok
                  · rename_i hsame
                    exact Or.inr (Or.inr ⟨other,tryFetch_eq_some.mp hother,hsame⟩)
                  · cases hok

end Verify

section Subject
variable {verifier : DigestVerifier} {request : SubjectRequest} {platform : ImagePlatform}
  {document : ManifestDocument}

/-- The index has the reported digest, by what it states or by what the registry says of the tag. -/
def IsReportedIndex (verifier : DigestVerifier) (image : RegistryImageRef) (document : ManifestDocument)
    (reported : Str) : Prop :=
  tagDocumentDigest document = reported ∨
    tagDocumentDigest document = [] ∧ verifier.resolveIndexDigest image = .ok reported

/-- What an exact subject of a current tag is: the only child of the platform, where the index is reported; a child
of the platform, where it is reported itself; or the manifest of the tag, where that is reported. -/
def ExactOfTag (verifier : DigestVerifier) (image : RegistryImageRef) (document : ManifestDocument)
    (platform : ImagePlatform) (reported manifestDigest : Str) : Prop :=
  document.isIndex = true ∧ IsReportedIndex verifier image document reported ∧
      document.OnlyChild verifier.rules platform manifestDigest ∨
    document.isIndex = true ∧ manifestDigest = reported ∧
      document.FirstChild verifier.rules platform manifestDigest ∨
    document.isIndex = false ∧ document.isImageManifest = true ∧ manifestDigest = reported ∧
      tagDocumentDigest document = reported

/-- What an exact subject of a reported digest is: the only child of the platform of the index that was fetched by the
digest, or the manifest that was. -/
def ExactOfDigest (verifier : DigestVerifier) (document : ManifestDocument) (platform : ImagePlatform)
    (reported manifestDigest : Str) : Prop :=
  document.isIndex = true ∧ document.OnlyChild verifier.rules platform manifestDigest ∨
    document.isIndex = false ∧ document.isImageManifest = true ∧ manifestDigest = reported

theorem fetchSubjectDocument_ok {name reported platformSource : Str} {wanted : Option ImagePlatform}
    {useReported : Bool}
    (h : verifier.fetchSubjectDocument name reported wanted platformSource useReported =
      .ok (request,platform,document)) :
    wanted = some platform ∧ parseRegistryImage verifier.rules name = some request.image ∧
      request.reportedDigest = normalizeDigest reported ∧ normalizeDigest reported ≠ [] ∧
      verifier.fetch request.image (if useReported then normalizeDigest reported else request.image.tag) =
        .ok document := by
  unfold DigestVerifier.fetchSubjectDocument at h
  dsimp only at h
  split at h
  · cases h
  · rename_i image hparse
    split at h
    · cases h
    · rename_i hne
      split at h
      · cases h
      · rename_i p
        split at h
        · cases h
        · cases h
        · rename_i hfetch
          cases h
          exact ⟨rfl,hparse,rfl,hne,hfetch⟩

theorem fetchSubjectDocument_error {name reported platformSource : Str} {wanted : Option ImagePlatform}
    {useReported : Bool} {subject : ResolvedImageSubject}
    (h : verifier.fetchSubjectDocument name reported wanted platformSource useReported = .error subject) :
    subject.identityStatus ≠ .exact := by
  unfold DigestVerifier.fetchSubjectDocument at h
  dsimp only at h
  split at h
  · cases h
    simp
  · split at h
    · cases h
      simp [resolvedSubject]
    · split at h
      · cases h
        simp [resolvedSubject]
      · split at h
        · cases h
          simp [resolvedSubject]
        · cases h
          simp only [resolvedSubject,subjectErrorStatus]
          split <;> simp
        · cases h

theorem resolveReportedIndexSubject_exact {tagDigest : Str}
    (h : (resolveReportedIndexSubject verifier.rules request platform document tagDigest).identityStatus = .exact) :
    document.OnlyChild verifier.rules platform
      (resolveReportedIndexSubject verifier.rules request platform document tagDigest).manifestDigest := by
  unfold resolveReportedIndexSubject at h ⊢
  dsimp only at h ⊢
  split at h
  · cases h
  · rename_i hne
    rw [if_neg hne]
    exact ManifestDocument.matchingPlatformChildDigest_onlyChild hne

theorem resolveReportedChildSubject_exact {tagDigest : Str} {child : ImagePlatform}
    (h : (resolveReportedChildSubject request platform document tagDigest child).identityStatus = .exact) :
    child = platform ∧
      (resolveReportedChildSubject request platform document tagDigest child).manifestDigest =
        request.reportedDigest := by
  unfold resolveReportedChildSubject at h ⊢
  split at h
  · cases h
  · rename_i hmatch
    rw [if_neg hmatch]
    exact ⟨platformMatches_iff.mp (by simpa using hmatch),rfl⟩

theorem resolveImageManifestSubject_exact {tagDigest : Str}
    (h : (resolveImageManifestSubject request document tagDigest).identityStatus = .exact) :
    tagDigest = request.reportedDigest ∧
      (resolveImageManifestSubject request document tagDigest).manifestDigest = request.reportedDigest := by
  unfold resolveImageManifestSubject at h ⊢
  split at h
  · cases h
  · rename_i hne
    rw [if_neg hne]
    exact ⟨(not_not.mp hne).symm,rfl⟩

theorem resolveIndexSubject_exact (hindex : document.isIndex = true)
    (h : (verifier.resolveIndexSubject request platform document (tagDocumentDigest document)).identityStatus =
      .exact) :
    ExactOfTag verifier request.image document platform request.reportedDigest
      (verifier.resolveIndexSubject request platform document (tagDocumentDigest document)).manifestDigest := by
  unfold DigestVerifier.resolveIndexSubject at h ⊢
  split at h
  · cases h
  · rename_i tagDigest htag
    split at h
    · rename_i hreported
      rw [if_pos hreported]
      simp only [Bool.and_eq_true,decide_eq_true_eq] at hreported
      have hstated : IsReportedIndex verifier request.image document request.reportedDigest := by
        rw [hreported.2]
        split at htag
        · rename_i hnil
          exact Or.inr ⟨hnil,htag⟩
        · exact Or.inl (Except.ok.inj htag)
      exact Or.inl ⟨hindex,hstated,resolveReportedIndexSubject_exact h⟩
    · rename_i hreported
      rw [if_neg hreported]
      split at h
      · rename_i child hchild
        obtain ⟨rfl,hdigest⟩ := resolveReportedChildSubject_exact h
        refine Or.inr (Or.inl ⟨hindex,hdigest,?_⟩)
        rw [hdigest]
        exact ManifestDocument.childPlatform_eq_some.mp hchild
      · split at h
        · cases h
        · cases h

theorem resolveSubject_exact {name reported platformSource : Str} {wanted : Option ImagePlatform}
    (h : (verifier.resolveSubject name reported wanted platformSource).identityStatus = .exact) :
    ∃ image platform document, parseRegistryImage verifier.rules name = some image ∧ wanted = some platform ∧
      verifier.fetch image image.tag = .ok document ∧
      ExactOfTag verifier image document platform (normalizeDigest reported)
        (verifier.resolveSubject name reported wanted platformSource).manifestDigest := by
  unfold DigestVerifier.resolveSubject at h ⊢
  split at h
  · rename_i hfetch
    exact absurd h (fetchSubjectDocument_error hfetch)
  · rename_i request platform document hfetch
    obtain ⟨hwanted,hparse,hreported,-,hdocument⟩ := fetchSubjectDocument_ok hfetch
    refine ⟨request.image,platform,document,hparse,hwanted,hdocument,?_⟩
    rw [← hreported]
    dsimp only at h ⊢
    split at h
    · rename_i hindex
      rw [if_pos hindex]
      exact resolveIndexSubject_exact hindex h
    · rename_i hindex
      rw [if_neg hindex]
      split at h
      · rename_i hmanifest
        rw [if_pos hmanifest]
        obtain ⟨htag,hdigest⟩ := resolveImageManifestSubject_exact h
        exact Or.inr (Or.inr ⟨by simpa using hindex,hmanifest,hdigest,htag⟩)
      · cases h

theorem resolveDigestSubject_exact {name reported platformSource : Str} {wanted : Option ImagePlatform}
    (h : (verifier.resolveDigestSubject name reported wanted platformSource).identityStatus = .exact) :
    ∃ image platform document, parseRegistryImage verifier.rules name = some image ∧ wanted = some platform ∧
      verifier.fetch image (normalizeDigest reported) = .ok document ∧
      ExactOfDigest verifier document platform (normalizeDigest reported)
        (verifier.resolveDigestSubject name reported wanted platformSource).manifestDigest := by
  unfold DigestVerifier.resolveDigestSubject at h ⊢
  split at h
  · rename_i hfetch
    exact absurd h (fetchSubjectDocument_error hfetch)
  · rename_i request platform document hfetch
    obtain ⟨hwanted,hparse,hreported,-,hdocument⟩ := fetchSubjectDocument_ok hfetch
    refine ⟨request.image,platform,document,hparse,hwanted,hdocument,?_⟩
    rw [← hreported]
    dsimp only at h ⊢
    split at h
    · rename_i hindex
      rw [if_pos hindex]
      exact Or.inl ⟨hindex,resolveReportedIndexSubject_exact h⟩
    · rename_i hindex
      rw [if_neg hindex]
      split at h
      · rename_i hmanifest
        rw [if_pos hmanifest]
        exact Or.inr ⟨by simpa using hindex,hmanifest,rfl⟩
      · cases h

/-- What the registry answers for a digest hashes to it, and the document has it. -/
theorem http_fetch_digest {http : RegistryHttp} {image : RegistryImageRef} {digest : Str}
    (hcolon : digest.contains ':' = true) (h : http.fetch image digest = .ok document) :
    document.digest = digest ∧ ∃ answer algorithm, http.request image digest = .ok answer ∧
      http.manifestDigest answer.body algorithm = digest := by
  unfold RegistryHttp.fetch at h
  obtain ⟨answer,hanswer,h⟩ := bind_eq_ok.mp h
  obtain ⟨_,hverified,h⟩ := bind_eq_ok.mp h
  obtain ⟨payload,_,h⟩ := bind_eq_ok.mp h
  obtain ⟨_,_,h⟩ := bind_eq_ok.mp h
  cases h
  refine ⟨if_pos hcolon,answer,((cut ':' digest).map (·.1)).getD digest,?_,?_⟩
  · cases hrequest : http.request image digest with
    | error error =>
      rw [hrequest] at hanswer
      cases hanswer
    | ok found =>
      rw [hrequest] at hanswer
      cases hanswer
      rfl
  · have hne : digest ≠ [] := by
      intro hnil
      simp [hnil] at hcolon
    unfold RegistryHttp.verifyResponseDigests at hverified
    rw [if_neg hne] at hverified
    simp only [hcolon,if_true,List.filter_cons,ne_eq,hne,not_false_eq_true,decide_true] at hverified
    rw [List.forM_eq_forM,List.forM_cons] at hverified
    obtain ⟨_,hbody,-⟩ := bind_eq_ok.mp hverified
    unfold RegistryHttp.verifyManifestDigest at hbody
    dsimp only at hbody
    split at hbody
    · cases hbody
    · rename_i hvalid
      simp only [Bool.or_eq_true,decide_eq_true_eq,not_or,ne_eq,not_not] at hvalid
      exact hvalid.2

end Subject

/-- A digest that is verified is reached. An exact subject is the only child of the platform where an index was reported,
the reported child of the platform where one was, or the reported manifest; what the registry answers for a
digest hashes to it. -/
theorem digest_verification_sound (verifier : DigestVerifier) :
    (∀ name expected, (verifier.verify name expected).ok = true → Reached verifier name expected) ∧
    (∀ name reported wanted platformSource,
      (verifier.resolveSubject name reported wanted platformSource).identityStatus = .exact →
      ∃ image platform document, parseRegistryImage verifier.rules name = some image ∧ wanted = some platform ∧
        verifier.fetch image image.tag = .ok document ∧
        ExactOfTag verifier image document platform (normalizeDigest reported)
          (verifier.resolveSubject name reported wanted platformSource).manifestDigest) ∧
    (∀ name reported wanted platformSource,
      (verifier.resolveDigestSubject name reported wanted platformSource).identityStatus = .exact →
      ∃ image platform document, parseRegistryImage verifier.rules name = some image ∧ wanted = some platform ∧
        verifier.fetch image (normalizeDigest reported) = .ok document ∧
        ExactOfDigest verifier document platform (normalizeDigest reported)
          (verifier.resolveDigestSubject name reported wanted platformSource).manifestDigest) ∧
    ∀ (http : RegistryHttp) image digest document, digest.contains ':' = true →
      http.fetch image digest = .ok document →
      document.digest = digest ∧ ∃ answer algorithm, http.request image digest = .ok answer ∧
        http.manifestDigest answer.body algorithm = digest := by
  refine ⟨?_,?_,?_,?_⟩
  · intro name expected hok
    exact verify_reached hok
  · intro name reported wanted platformSource h
    exact resolveSubject_exact h
  · intro name reported wanted platformSource h
    exact resolveDigestSubject_exact h
  · intro http image digest document hcolon h
    exact http_fetch_digest hcolon h

section Example

def linuxAmd64 : ImagePlatform := ⟨"linux".toList,"amd64".toList,[]⟩

def amd64Child (digest : String) : Json :=
  .object [("digest".toList,.string digest.toList),
    ("platform".toList,.object [("os".toList,.string "linux".toList),
      ("architecture".toList,.string "amd64".toList)])]

/-- An index with two children of one platform. -/
def twoAmd64 : ManifestDocument where
  source := "registry".toList
  digest := "sha256:index".toList
  mediaType := "application/vnd.oci.image.index.v1+json".toList
  payload := [("manifests".toList,.array [amd64Child "sha256:first",amd64Child "sha256:second"])]

/-- A verifier whose registry gives the index for every reference, and whose image store holds the index. -/
def twoChildren : DigestVerifier where
  rules := plainCase
  docker :=
    { repoDigests := fun _ => []
      imageId := fun _ => "sha256:index".toList
      imagePlatform := fun _ => some linuxAmd64 }
  primaryResolver := fun _ _ => .ok twoAmd64
  fallbackResolver := fun _ _ => .ok twoAmd64
  indexResolver := fun _ _ => .ok twoAmd64

def acmeApp : Str := "ghcr.io/acme/app:latest".toList

/-- The second of two children of the platform is exact when it is reported. -/
theorem reported_child_not_unique :
    let subject := twoChildren.resolveSubject acmeApp "sha256:second".toList (some linuxAmd64) []
    subject.identityStatus = .exact ∧ subject.manifestDigest = "sha256:second".toList ∧
      twoAmd64.isIndex = true ∧ twoAmd64.isImageManifest = false ∧
      ¬twoAmd64.OnlyChild plainCase linuxAmd64 subject.manifestDigest := by
  have hdigest : (twoChildren.resolveSubject acmeApp "sha256:second".toList (some linuxAmd64) []).manifestDigest =
      "sha256:second".toList := by
    decide +kernel
  refine ⟨by decide +kernel,hdigest,by decide +kernel,by decide +kernel,?_⟩
  rw [hdigest,ManifestDocument.onlyChild_iff (by decide)]
  decide +kernel

theorem digest_verification_sound_acme :
    Reached twoChildren acmeApp "sha256:index".toList ∧
      ∃ image platform document, parseRegistryImage plainCase acmeApp = some image ∧
        some linuxAmd64 = some platform ∧ twoChildren.fetch image image.tag = .ok document ∧
        ExactOfTag twoChildren image document platform (normalizeDigest "sha256:second".toList)
          (twoChildren.resolveSubject acmeApp "sha256:second".toList (some linuxAmd64) []).manifestDigest :=
  ⟨(digest_verification_sound twoChildren).1 acmeApp "sha256:index".toList (by decide +kernel),
    (digest_verification_sound twoChildren).2.1 acmeApp "sha256:second".toList (some linuxAmd64) []
      (by decide +kernel)⟩

end Example

end Wudup

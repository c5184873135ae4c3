import Wudup.DigestDocuments

/-! Verifying that a pulled image has a reported digest, and resolving the image a digest stands for. -/
namespace Wudup
open Library

inductive CheckStatus where
  | failed
  | verified
  | untrusted
  | resolved
  deriving DecidableEq, Repr

structure DigestCheckResult where
  ok : Bool
  status : CheckStatus
  reason : String
  seenRepoDigests : List Str := []
  tagDigest : Str := []
  matchedChildDigest : Str := []
  expectedConfigDigest : Str := []
  localImageId : Str := []
  source : Str := []
  error : Str := []
  deriving DecidableEq, Repr

structure DigestResolveResult where
  ok : Bool
  status : CheckStatus
  reason : String
  digest : Str := []
  source : Str := []
  error : Str := []
  deriving DecidableEq, Repr

inductive IdentityStatus where
  | exact
  | mismatch
  | stale
  | unsupported
  | authRequired
  | error
  deriving DecidableEq, Repr

structure ResolvedImageSubject where
  canonicalRegistry : Str := []
  canonicalRepository : Str := []
  requestedRef : Str := []
  reportedDigest : Str := []
  indexDigest : Str := []
  manifestDigest : Str := []
  os : Str := []
  architecture : Str := []
  variant : Str := []
  platformSource : Str := []
  identityStatus : IdentityStatus := .unsupported
  warnings : List Str := []
  source : Str := []
  error : Str := []
  deriving DecidableEq, Repr

/-- What the local Docker knows about an image. -/
structure LocalImages where
  repoDigests : Str → List Str
  imageId : Str → Str
  imagePlatform : Str → Option ImagePlatform

/-- The resolvers of a verifier; the digest of an index is looked up over HTTP. -/
structure DigestVerifier where
  rules : CaseRules
  docker : LocalImages
  primaryResolver : ManifestResolver
  fallbackResolver : ManifestResolver
  indexResolver : ManifestResolver

def failureStatus (image : RegistryImageRef) : CheckStatus := if image.isGhcr then .failed else .untrusted

def manifestUnavailableReason (image : RegistryImageRef) : String :=
  if image.isGhcr then "manifest-unavailable" else "manifest-unavailable-untrusted"

def reasonFor (image : RegistryImageRef) (suffix : String) : String :=
  (if image.isGhcr then "ghcr-" else "registry-") ++ suffix

def configMismatchReason (configDigest : Str) : String :=
  if configDigest ≠ [] then "platform-mismatch" else "manifest-config-missing"

/-- An image id is a config digest in one image store, and the digest of a manifest or index in the other. -/
def imageIdMatches (localImageId configDigest : Str) (manifestDigests : List Str) : Bool :=
  localImageId ≠ [] && (configDigest :: manifestDigests).contains localImageId

def repoDigestValue (digest : Str) : Str := ((cutLast '@' digest).map (·.2)).getD digest

/-- What a check has found out about the local image. -/
structure LocalImage where
  image : Str
  repoDigests : List Str
  imageId : Str
  deriving DecidableEq, Repr

namespace DigestVerifier
variable (verifier : DigestVerifier)

def fetch (image : RegistryImageRef) (reference : Str) : Except FetchError ManifestDocument :=
  match verifier.primaryResolver image reference with
  | .error (.lookup primary) =>
    match verifier.fallbackResolver image reference with
    | .error (.lookup fallback) => .error (.lookup (primary ++ "; fallback failed: ".toList ++ fallback))
    | result => result
  | result => result

/-- Fetches a document that may be missing; only broken bytes are an error. -/
def tryFetch (image : RegistryImageRef) (reference : Str) : Except Str (Option ManifestDocument) :=
  match verifier.fetch image reference with
  | .ok document => .ok (some document)
  | .error (.lookup _) => .ok none
  | .error (.integrity error) => .error error

/-- The index of the local image lists the digest for the platform of the local image. -/
def localIndexSelectsChild (found : LocalImage) (tagDocument : ManifestDocument) (expected : Str) : Bool :=
  if tagDocument.digest = [] || found.imageId ≠ tagDocument.digest then false
  else match tagDocument.childPlatform verifier.rules expected with
    | none => false
    | some childPlatform => (verifier.docker.imagePlatform found.image).any (sameLocalPlatform childPlatform)

def verifyExpectedManifest (image : RegistryImageRef) (expected : Str) (tagDocument : ManifestDocument)
    (found : LocalImage) : Except Str DigestCheckResult :=
  if verifier.localIndexSelectsChild found tagDocument expected then
    .ok {
      ok := true
      status := .verified
      reason := reasonFor image "platform-manifest-match"
      seenRepoDigests := found.repoDigests
      tagDigest := tagDocument.digest
      matchedChildDigest := expected
      localImageId := found.imageId
      source := tagDocument.source }
  else match verifier.fetch image expected with
    | .error (.integrity error) => .error error
    | .error (.lookup error) =>
      .ok {
        ok := false
        status := failureStatus image
        reason := manifestUnavailableReason image
        seenRepoDigests := found.repoDigests
        tagDigest := tagDocument.digest
        matchedChildDigest := expected
        localImageId := found.imageId
        source := tagDocument.source
        error }
    | .ok expectedDocument =>
      let expectedConfigDigest := expectedDocument.configDigest
      let ok := imageIdMatches found.imageId expectedConfigDigest [expected]
      .ok {
        ok
        status := if ok then .verified else .failed
        reason :=
          if ok then reasonFor image "platform-manifest-match" else configMismatchReason expectedConfigDigest
        seenRepoDigests := found.repoDigests
        tagDigest := tagDocument.digest
        matchedChildDigest := expected
        expectedConfigDigest
        localImageId := found.imageId
        source := expectedDocument.source }

def tagDigestOr (tagDocument : ManifestDocument) (expected : Str) : Str :=
  if tagDocument.digest ≠ [] then tagDocument.digest else expected

def verifyImageManifestDocument (image : RegistryImageRef) (tagDocument : ManifestDocument) (expected : Str)
    (found : LocalImage) : DigestCheckResult :=
  let expectedConfigDigest := tagDocument.configDigest
  let tagDigest := tagDigestOr tagDocument expected
  let ok := imageIdMatches found.imageId expectedConfigDigest [tagDigest]
  { ok
    status := if ok then .verified else .failed
    reason := if ok then reasonFor image "tag-manifest-match" else configMismatchReason expectedConfigDigest
    seenRepoDigests := found.repoDigests
    tagDigest
    expectedConfigDigest
    localImageId := found.imageId
    source := tagDocument.source }

/-- The first child that is the local image, by its digest and document. -/
def matchingChild (image : RegistryImageRef) (localImageId : Str) :
    List Str → Except Str (Option (Str × ManifestDocument))
  | [] => .ok none
  | childDigest :: rest =>
    match verifier.tryFetch image childDigest with
    | .error error => .error error
    | .ok none => matchingChild image localImageId rest
    | .ok (some child) =>
      if imageIdMatches localImageId child.configDigest [childDigest] then .ok (some (childDigest,child))
      else matchingChild image localImageId rest

def verifyIndexManifestDocument (image : RegistryImageRef) (tagDocument : ManifestDocument) (expected : Str)
    (found : LocalImage) : Except Str DigestCheckResult :=
  let indexDigest := tagDigestOr tagDocument expected
  if imageIdMatches found.imageId [] [indexDigest] then
    .ok {
      ok := true
      status := .verified
      reason := reasonFor image "index-manifest-match"
      seenRepoDigests := found.repoDigests
      tagDigest := indexDigest
      localImageId := found.imageId
      source := tagDocument.source }
  else match verifier.matchingChild image found.imageId tagDocument.childDigests with
    | .error error => .error error
    | .ok (some (childDigest,child)) =>
      .ok {
        ok := true
        status := .verified
        reason := reasonFor image "index-manifest-match"
        seenRepoDigests := found.repoDigests
        tagDigest := indexDigest
        matchedChildDigest := childDigest
        expectedConfigDigest := child.configDigest
        localImageId := found.imageId
        source := child.source }
    | .ok none =>
      .ok {
        ok := false
        status := .failed
        reason := "platform-mismatch"
        seenRepoDigests := found.repoDigests
        tagDigest := indexDigest
        localImageId := found.imageId
        source := tagDocument.source }

def verifyTagDocument (image : RegistryImageRef) (tagDocument : ManifestDocument) (expected : Str)
    (found : LocalImage) : Except Str DigestCheckResult :=
  if tagDocument.isImageManifest then .ok (verifyImageManifestDocument image tagDocument expected found)
  else verifier.verifyIndexManifestDocument image tagDocument expected found

def staleDigest (tagDocument : ManifestDocument) (found : LocalImage) : DigestCheckResult :=
  { ok := false
    status := .failed
    reason := "stale-digest"
    seenRepoDigests := found.repoDigests
    tagDigest := tagDocument.digest
    localImageId := found.imageId
    source := tagDocument.source }

/-- The check of an image against the current document of its tag. -/
def verifyCurrent (image : RegistryImageRef) (tagDocument : ManifestDocument) (expected : Str)
    (found : LocalImage) : Except Str DigestCheckResult :=
  if tagDocument.digest = expected then verifier.verifyTagDocument image tagDocument expected found
  else if tagDocument.isIndex && tagDocument.childDigest expected ≠ [] then
    verifier.verifyExpectedManifest image expected tagDocument found
  else if tagDocument.digest = [] then
    match verifier.tryFetch image expected with
    | .error error => .error error
    | .ok none => .ok (staleDigest tagDocument found)
    | .ok (some expectedDocument) =>
      if sameManifest tagDocument.payload expectedDocument.payload then
        verifier.verifyTagDocument image tagDocument expected found
      else .ok (staleDigest tagDocument found)
  else .ok (staleDigest tagDocument found)

def verifyFound (expected : Str) (found : LocalImage) : Except Str DigestCheckResult :=
  if found.repoDigests.any (repoDigestValue · = expected) then
    .ok {
      ok := true
      status := .verified
      reason := "repo-digest-match"
      seenRepoDigests := found.repoDigests
      localImageId := found.imageId }
  else match parseRegistryImage verifier.rules found.image with
    | none =>
      .ok {
        ok := false
        status := .untrusted
        reason := "repo-digest-mismatch"
        seenRepoDigests := found.repoDigests
        localImageId := found.imageId }
    | some image =>
      if found.imageId = [] then
        .ok {
          ok := false
          status := failureStatus image
          reason := "missing-local-image-id"
          seenRepoDigests := found.repoDigests }
      else match verifier.fetch image image.tag with
        | .error (.integrity error) => .error error
        | .error (.lookup error) =>
          .ok {
            ok := false
            status := failureStatus image
            reason := manifestUnavailableReason image
            seenRepoDigests := found.repoDigests
            localImageId := found.imageId
            error }
        | .ok tagDocument => verifier.verifyCurrent image tagDocument expected found

def localImage (image : Str) : LocalImage :=
  { image, repoDigests := verifier.docker.repoDigests image, imageId := verifier.docker.imageId image }

def verify (image expected : Str) : DigestCheckResult :=
  match verifier.verifyFound expected (verifier.localImage image) with
  | .ok result => result
  | .error error => { ok := false, status := .failed, reason := "manifest-integrity-mismatch", error }

/-- The digest of the index a tag stands for, if the registry gives one. -/
def resolveIndexDigest (image : RegistryImageRef) : Except Str Str :=
  match verifier.indexResolver image image.tag with
  | .error (.integrity error) => .error error
  | .error (.lookup _) => .ok []
  | .ok document =>
    if !document.isIndex then .ok []
    else if document.digest ≠ [] then .ok document.digest
    else .ok (payloadDigest document.payload)

def statedDigest (document : ManifestDocument) : Str :=
  if document.digest ≠ [] then document.digest else payloadDigest document.payload

/-- The digest a tag document states, or the one its index is looked up by. -/
def currentDigest (image : RegistryImageRef) (tagDocument : ManifestDocument) (stated : Str) : Except Str Str :=
  if stated = [] && tagDocument.isIndex then verifier.resolveIndexDigest image else .ok stated

def resolveError (error : Str) : DigestResolveResult :=
  { ok := false, status := .failed, reason := "manifest-integrity-mismatch", error }

def unavailable (image : RegistryImageRef) (error : Str) : DigestResolveResult :=
  { ok := false, status := failureStatus image, reason := manifestUnavailableReason image, error }

def unsupportedReference : DigestResolveResult :=
  { ok := false, status := .untrusted, reason := "unsupported-image-reference" }

def resolveTagDigest (image : Str) : DigestResolveResult :=
  match parseRegistryImage verifier.rules image with
  | none => unsupportedReference
  | some image => match verifier.fetch image image.tag with
    | .error (.integrity error) => resolveError error
    | .error (.lookup error) => unavailable image error
    | .ok tagDocument =>
      match verifier.currentDigest image tagDocument (statedDigest tagDocument) with
      | .error error => resolveError error
      | .ok digest =>
        if digest = [] then
          { ok := false
            status := failureStatus image
            reason := "manifest-digest-missing"
            source := tagDocument.source }
        else
          { ok := true, status := .resolved, reason := "tag-digest-resolved", digest
            source := tagDocument.source }

/-- A tag's digest against the one that is expected of it, or the manifests where it has none. -/
def verifyCurrentTag (image : RegistryImageRef) (tagDocument : ManifestDocument) (tagDigest expected : Str) :
    DigestResolveResult :=
  let verified := fun reason => ({
    ok := true, status := .verified, reason, digest := expected, source := tagDocument.source } :
      DigestResolveResult)
  let stale : DigestResolveResult :=
    { ok := false, status := .failed, reason := "stale-digest", digest := tagDigest, source := tagDocument.source }
  if tagDigest = expected then verified "tag-digest-current"
  else if tagDocument.isIndex && tagDocument.platformChildDigest verifier.rules expected ≠ [] then
    verified "tag-child-digest-current"
  else if tagDigest ≠ [] then stale
  else match verifier.tryFetch image expected with
    | .error error => resolveError error
    | .ok none =>
      { ok := false
        status := failureStatus image
        reason := "tag-digest-unavailable"
        source := tagDocument.source }
    | .ok (some expectedDocument) =>
      if sameManifest tagDocument.payload expectedDocument.payload then verified "tag-manifest-current"
      else stale

def verifyTagDigest (image reported : Str) : DigestResolveResult :=
  let expected := normalizeDigest reported
  if expected = [] then { ok := false, status := .failed, reason := "expected-digest-missing" }
  else match parseRegistryImage verifier.rules image with
    | none => unsupportedReference
    | some image => match verifier.fetch image image.tag with
      | .error (.integrity error) => resolveError error
      | .error (.lookup error) => unavailable image error
      | .ok tagDocument =>
        match verifier.currentDigest image tagDocument (normalizeDigest (statedDigest tagDocument)) with
        | .error error => resolveError error
        | .ok tagDigest => verifier.verifyCurrentTag image tagDocument tagDigest expected

end DigestVerifier

/-- What a subject is resolved for. -/
structure SubjectRequest where
  image : RegistryImageRef
  reportedDigest : Str
  platform : Option ImagePlatform
  platformSource : Str
  deriving DecidableEq, Repr

def resolvedSubject (request : SubjectRequest) (identityStatus : IdentityStatus) : ResolvedImageSubject where
  canonicalRegistry := request.image.registry
  canonicalRepository := request.image.repo
  requestedRef := request.image.manifestRef request.image.tag
  reportedDigest := request.reportedDigest
  os := (request.platform.map (·.os)).getD []
  architecture := (request.platform.map (·.architecture)).getD []
  variant := (request.platform.map (·.variant)).getD []
  platformSource := request.platformSource
  identityStatus

def subjectErrorStatus (rules : CaseRules) (error : Str) : IdentityStatus :=
  let lowered := rules.lower error
  if ["401".toList,"403".toList,"auth".toList].any fun code => (cutText code lowered).isSome then .authRequired
  else .error

def tagDocumentDigest (document : ManifestDocument) : Str :=
  normalizeDigest (DigestVerifier.statedDigest document)

def suppliedPlatform : Str := "single-manifest platform was supplied by metadata".toList

def resolveReportedIndexSubject (rules : CaseRules) (request : SubjectRequest) (platform : ImagePlatform)
    (tagDocument : ManifestDocument) (tagDigest : Str) : ResolvedImageSubject :=
  let childDigest := tagDocument.matchingPlatformChildDigest rules platform
  if childDigest = [] then
    { resolvedSubject request .mismatch with
      indexDigest := tagDigest
      source := tagDocument.source
      error := "reported index digest has no matching platform child".toList }
  else
    { resolvedSubject request .exact with
      indexDigest := tagDigest
      manifestDigest := childDigest
      source := tagDocument.source }

def resolveReportedChildSubject (request : SubjectRequest) (platform : ImagePlatform)
    (tagDocument : ManifestDocument) (tagDigest : Str) (childPlatform : ImagePlatform) : ResolvedImageSubject :=
  if !platformMatches childPlatform platform then
    { resolvedSubject request .mismatch with
      indexDigest := tagDigest
      source := tagDocument.source
      error := "reported child digest platform does not match".toList }
  else
    { resolvedSubject request .exact with
      indexDigest := tagDigest
      manifestDigest := request.reportedDigest
      source := tagDocument.source }

def resolveImageManifestSubject (request : SubjectRequest) (tagDocument : ManifestDocument) (tagDigest : Str) :
    ResolvedImageSubject :=
  if request.reportedDigest ≠ tagDigest then
    { resolvedSubject request .stale with
      source := tagDocument.source
      error := "reported digest does not match the current manifest".toList }
  else
    { resolvedSubject request .exact with
      manifestDigest := request.reportedDigest
      source := tagDocument.source
      warnings := [suppliedPlatform] }

def unsupportedDocument (request : SubjectRequest) (document : ManifestDocument) : ResolvedImageSubject :=
  { resolvedSubject request .unsupported with
    source := document.source
    error := "manifest document was not an image manifest or index".toList }

namespace DigestVerifier
variable (verifier : DigestVerifier)

/-- The document a subject is resolved from: the one of the tag, or the one of the reported digest. -/
def fetchSubjectDocument (image reported : Str) (platform : Option ImagePlatform) (platformSource : Str)
    (useReportedDigest : Bool) : Except ResolvedImageSubject (SubjectRequest × ImagePlatform × ManifestDocument) :=
  let reportedDigest := normalizeDigest reported
  match parseRegistryImage verifier.rules image with
  | none => .error {
      requestedRef := image
      reportedDigest
      platformSource
      identityStatus := .unsupported
      error := "unsupported image reference".toList }
  | some image =>
    let request : SubjectRequest := { image, reportedDigest, platform, platformSource }
    if reportedDigest = [] then
      .error { resolvedSubject { request with platform := none } .unsupported with
        error := "reported digest is required".toList }
    else match platform with
      | none => .error { resolvedSubject request .unsupported with error := "platform is required".toList }
      | some platform =>
        match verifier.fetch image (if useReportedDigest then reportedDigest else image.tag) with
        | .error (.integrity error) => .error { resolvedSubject request .mismatch with error }
        | .error (.lookup error) =>
          .error { resolvedSubject request (subjectErrorStatus verifier.rules error) with error }
        | .ok document => .ok (request,platform,document)

/-- A reported digest is the index, one of its children, or stale. -/
def resolveIndexSubject (request : SubjectRequest) (platform : ImagePlatform) (tagDocument : ManifestDocument)
    (stated : Str) : ResolvedImageSubject :=
  match (if stated = [] then verifier.resolveIndexDigest request.image else .ok stated) with
  | .error error => { resolvedSubject request .mismatch with error }
  | .ok tagDigest =>
    if tagDigest ≠ [] && request.reportedDigest = tagDigest then
      resolveReportedIndexSubject verifier.rules request platform tagDocument tagDigest
    else match tagDocument.childPlatform verifier.rules request.reportedDigest with
      | some childPlatform => resolveReportedChildSubject request platform tagDocument tagDigest childPlatform
      | none =>
        if tagDigest = [] then
          { resolvedSubject request .error with
            source := tagDocument.source
            error := "current index digest could not be resolved".toList }
        else
          { resolvedSubject request .stale with
            indexDigest := tagDigest
            source := tagDocument.source
            error := "reported digest is not in the current index".toList }

def resolveSubject (image reported : Str) (platform : Option ImagePlatform) (platformSource : Str) :
    ResolvedImageSubject :=
  match verifier.fetchSubjectDocument image reported platform platformSource false with
  | .error subject => subject
  | .ok (request,platform,tagDocument) =>
    let tagDigest := tagDocumentDigest tagDocument
    if tagDocument.isIndex then verifier.resolveIndexSubject request platform tagDocument tagDigest
    else if tagDocument.isImageManifest then resolveImageManifestSubject request tagDocument tagDigest
    else unsupportedDocument request tagDocument

def resolveDigestSubject (image reported : Str) (platform : Option ImagePlatform) (platformSource : Str) :
    ResolvedImageSubject :=
  match verifier.fetchSubjectDocument image reported platform platformSource true with
  | .error subject => subject
  | .ok (request,platform,document) =>
    let stated := tagDocumentDigest document
    let documentDigest := if stated ≠ [] then stated else request.reportedDigest
    if document.isIndex then resolveReportedIndexSubject verifier.rules request platform document documentDigest
    else if document.isImageManifest then
      { resolvedSubject request .exact with
        manifestDigest := request.reportedDigest
        source := document.source
        warnings := [suppliedPlatform] }
    else unsupportedDocument request document

end DigestVerifier

end Wudup

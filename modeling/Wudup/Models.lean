import Mathlib.Data.Int.Order.Basic
import Mathlib.Data.List.Basic

/-! Data shared by the planner, the updater and the web jobs. -/
namespace Wudup

/-- Text the program takes apart. -/
abbrev Str := List Char

/-- The order of times and row ids that computes, whatever other orders of the integers are there. -/
instance (priority := high) intPreorder : Preorder ℤ := Int.instLinearOrder.toPartialOrder.toPreorder

instance lawfulBEqStr : LawfulBEq Str := inferInstance

structure ServiceImage where
  service : Str
  image : Str
  networkMode : Str := []
  labels : List (Str × Str) := []
  deriving DecidableEq, Repr

structure ComposeStack where
  index : ℕ
  directory : Str
  file : Str
  name : Str
  images : List Str
  serviceImages : List ServiceImage
  projectDirectory : Option Str := none
  projectName : Str := []
  serviceNames : List Str := []
  deriving DecidableEq, Repr

/-- One entry of the WUD todo file. -/
structure WudTarget where
  lineNo : ℕ
  raw : Str
  first : Str
  key : Str
  repo : Str
  hasTag : Bool
  allowRepo : Bool
  digest : Str
  desiredTag : Str
  tagToken : Str := []
  deriving DecidableEq, Repr

structure Match where
  stack : ComposeStack
  target : WudTarget
  resolved : Str
  composeImage : Str
  service : Str
  deriving DecidableEq, Repr

/-- A line, or one stack of a line when a selection id is given. -/
structure UpdateSelection where
  lineNo : Int
  selectionId : Str := []
  deriving DecidableEq, Repr

inductive ExclusionScope where
  | imageRepo
  | service
  deriving DecidableEq, Repr

/-- A tag of one service that WUD must not report again. -/
structure TagExclusionUpdate where
  stack : ComposeStack
  service : Str
  image : Str
  imageRepo : Str
  tag : Str
  sourceLine : ℕ
  scope : ExclusionScope
  deriving DecidableEq, Repr

structure TagUpdate where
  oldImage : Str
  desiredTag : Str
  newImage : Str
  services : List Str
  deriving DecidableEq, Repr

structure DigestPinUpdate where
  oldImage : Str
  resolvedTag : Str
  resolvedImage : Str
  plannedDigest : Str
  finalImage : Str
  watchTag : Str
  marker : Str
  labelKey : Str
  labelValue : Str
  services : List Str
  deriving DecidableEq, Repr

structure DigestUnpinUpdate where
  oldImage : Str
  resolvedTag : Str
  tagImage : Str
  currentDigest : Str
  targetDigest : Str
  watchTag : Str
  marker : Str
  labelKey : Str
  labelValue : Str
  services : List Str
  deriving DecidableEq, Repr

structure AppliedTagUpdate extends TagUpdate where
  replacements : ℕ
  deriving DecidableEq, Repr

inductive PinLabelReason where
  | exactRegexNormalized
  | plainTagNormalized
  | approved
  | approvalRequired
  deriving DecidableEq, Repr

structure DigestPinLabelRewrite where
  service : Str
  labelKey : Str
  currentLabelValue : Str
  plannedTag : Str
  proposedLabelValue : Str
  proposedLabelRegex : Str
  approved : Bool
  reason : PinLabelReason
  deriving DecidableEq, Repr

structure AppliedDigestPinUpdate extends DigestPinUpdate where
  replacements : ℕ
  labelRewrites : List DigestPinLabelRewrite := []
  addedTransforms : List (Str × Str) := []
  deriving DecidableEq, Repr

structure AppliedDigestUnpinUpdate extends DigestUnpinUpdate where
  replacements : ℕ
  addedTransforms : List (Str × Str) := []
  deriving DecidableEq, Repr

structure DigestPinLabelRewriteApproval where
  stack : Str
  service : Str
  labelKey : Str
  currentLabelValue : Str
  plannedTag : Str
  proposedLabelValue : Str
  deriving DecidableEq, Repr

structure TagStreamLabelRewriteApproval where
  lineNo : ℕ
  stack : Str
  stackDirectory : Str
  composeFile : Str
  service : Str
  labelKey : Str
  currentLabelValue : Str
  selectedTag : Str
  proposedLabelValue : Str
  deriving DecidableEq, Repr

inductive StreamDecision where
  | preserve
  | switch
  deriving DecidableEq, Repr

inductive StreamLabelReason where
  | labelAdded
  | labelMatches
  | exactTagNormalized
  | approved
  | approvalRequired
  deriving DecidableEq, Repr

/-- A tag chosen for one service instead of the one the todo line reports, with the label that makes WUD
follow its stream. -/
structure TagStreamUpdate where
  lineNo : ℕ
  stack : Str
  stackDirectory : Str
  composeFile : Str
  service : Str
  currentTag : Str
  reportedTag : Str
  selectedTag : Str
  decision : StreamDecision
  labelKey : Str
  currentLabelValue : Str
  proposedLabelValue : Str
  proposedLabelRegex : Str
  approved : Bool
  reason : StreamLabelReason
  deriving DecidableEq, Repr

inductive Status where
  | success
  | failure
  deriving DecidableEq, Repr

structure StackStatus where
  status : Status
  reason : String
  deriving DecidableEq, Repr

structure UpResult where
  ok : Bool
  waitHandled : Bool
  deriving DecidableEq, Repr

/-- How a stack is taken down and brought up again around an update. -/
inductive UpdateMode where
  | live
  | pause
  | stop
  deriving DecidableEq, Repr

/-- Where the metadata of a pending line comes from: the current scan, an earlier one, or an earlier process. -/
inductive PendingMetadataStatus where
  | fresh
  | retained
  | recovered
  deriving DecidableEq, Repr

end Wudup

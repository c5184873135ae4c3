import Wudup.Matching
import Wudup.WudObservations

/-! The pending lines of WUD API containers, and the source they are read back from. -/
namespace Wudup
open Library

structure ApiPendingLine where
  raw : Str
  container : WudApiContainer
  containerIds : List Str
  sourceIds : List Str
  deriving DecidableEq, Repr

def containerSourceId (c : WudApiContainer) : Str :=
  if c.id ≠ [] then c.id
  else if c.name ≠ [] then c.name
  else if c.displayName ≠ [] then c.displayName
  else c.image

def containerIds (c : WudApiContainer) : List Str := if c.id ≠ [] then [c.id] else []

def pendingImageWithDigest (image digest : Str) : Str := stripDigest image ++ '@' :: normalizeDigest digest

def digestMetadataSuffix (digest : Str) : Str :=
  if digest ≠ [] then " sha256=".toList ++ normalizeDigest digest else []

/-- The line of a container: a tag with its digest, a digest, a tag alone, or the image. -/
def containerPendingLine (c : WudApiContainer) : Str :=
  let image := strip c.image
  if image = [] then []
  else
    let platformSuffix := match c.platform with
      | some platform => " platform=".toList ++ platform.value
      | none => []
    if c.updateKind = tagKind && tagValueValid c.remoteTag then
      image ++ " tag=".toList ++ c.remoteTag ++ platformSuffix ++ digestMetadataSuffix c.remoteDigest
    else if c.remoteDigest ≠ [] then pendingImageWithDigest image c.remoteDigest ++ platformSuffix
    else if tagValueValid c.remoteTag then image ++ " tag=".toList ++ c.remoteTag ++ platformSuffix
    else image ++ platformSuffix

def containerSortKey (c : WudApiContainer) : Str ×ₗ Str ×ₗ Str ×ₗ Str :=
  toLex (containerPendingLine c,toLex (c.id,toLex (c.name,c.image)))

def metadataPriority : PendingMetadataStatus → ℕ
  | .fresh => 0
  | .retained => 1
  | .recovered => 2

def leastFreshMetadataStatus (left right : PendingMetadataStatus) : PendingMetadataStatus :=
  if metadataPriority left ≥ metadataPriority right then left else right

def containerCanShareApplyScope (unresolved pending : WudApiContainer) : Bool :=
  if unresolved.image = [] || pending.image = [] then false
  else imageMatchesResolvedTarget unresolved.image pending.image (!imageHasTag pending.image)

/-- Another container of the same line. -/
def mergeApiPendingLine (existing : ApiPendingLine) (container : WudApiContainer) : ApiPendingLine :=
  let sourceId := containerSourceId container
  { existing with
    container := { existing.container with
      metadataStatus := leastFreshMetadataStatus existing.container.metadataStatus container.metadataStatus }
    containerIds := existing.containerIds ++ (containerIds container).filter (· ∉ existing.containerIds)
    sourceIds := if sourceId ∈ existing.sourceIds then existing.sourceIds else existing.sourceIds ++ [sourceId] }

/-- A container that an apply of the line would change too. -/
def mergeRelatedApiPendingLine (existing : ApiPendingLine) (container : WudApiContainer) : ApiPendingLine :=
  { existing with
    container := { existing.container with
      metadataStatus := leastFreshMetadataStatus existing.container.metadataStatus container.metadataStatus }
    containerIds := sortedSet (existing.containerIds ++ containerIds container)
    sourceIds := sortedSet (existing.sourceIds ++ [containerSourceId container]) }

/-- The lines by their text, with the next container on its line. -/
def addPendingContainer (byRaw : List ApiPendingLine) (container : WudApiContainer) : List ApiPendingLine :=
  let raw := containerPendingLine container
  if raw = [] then byRaw
  else
    match Keyed.find (·.raw) raw byRaw with
    | none => Keyed.set (·.raw) ⟨raw,container,containerIds container,[containerSourceId container]⟩ byRaw
    | some existing => Keyed.set (·.raw) (mergeApiPendingLine existing container) byRaw

def mergeRelated (related : List WudApiContainer) (line : ApiPendingLine) : ApiPendingLine :=
  related.foldl (fun existing container =>
    if containerCanShareApplyScope container existing.container then mergeRelatedApiPendingLine existing container
    else existing) line

def apiPendingLines (containers unresolvedContainers : List WudApiContainer) : List ApiPendingLine :=
  let byRaw := (Keyed.sortedBy containerSortKey containers).foldl addPendingContainer []
  let related := containers ++ unresolvedContainers.map fun container => { container with metadataStatus := .retained }
  -- Each line reads and writes its own entry only.
  (Keyed.sortedBy (·.raw) byRaw).map (mergeRelated (Keyed.sortedBy containerSortKey related))

/-! The source -/

/-- What the lines say, by their numbers. -/
def byLine {α : Type} (f : ApiPendingLine → α) (lines : List ApiPendingLine) : List (ℕ × α) :=
  lines.zipIdx.map fun (line,i) => (i+1,f line)

structure PendingSourceResult where
  found : Bool
  parsed : ParsedWudFile
  text : Str
  sourceHash : Str
  fresh : Bool
  degraded : Bool
  detail : Str
  warnings : List Str
  metadataByLine : List (ℕ × WudApiContainer)
  containerIdsByLine : List (ℕ × List Str)
  sourceIdsByLine : List (ℕ × Str)
  metadataStatusByLine : List (ℕ × PendingMetadataStatus)

section
variable (rules : CaseRules) (sha256 : Str → Str)

def emptyApiSource (degraded : Bool) (detail : Str) (warnings : List Str) : PendingSourceResult :=
  { found := false
    parsed := parseWudText rules [] none
    text := []
    sourceHash := sha256 []
    fresh := !degraded
    degraded
    detail
    warnings
    metadataByLine := []
    containerIdsByLine := []
    sourceIdsByLine := []
    metadataStatusByLine := [] }

def apiSource (snapshot : WudApiSnapshot) : PendingSourceResult :=
  if !snapshot.status.metadataAvailable then
    let detail := if snapshot.status.detail ≠ [] then snapshot.status.detail
      else "WUD API container metadata is unavailable".toList
    emptyApiSource rules sha256 true detail ["WUD API pending source degraded: ".toList ++ detail]
  else
    let lines := apiPendingLines snapshot.containers snapshot.unresolvedContainers
    let text := joinLines (lines.map (·.raw))
    let parsed := parseWudText rules text none
    let degraded := decide (snapshot.degradedContainerCount > 0)
    let detail := if degraded then snapshot.status.detail else []
    { found := true
      parsed
      text
      sourceHash := sha256 text
      fresh := !degraded
      degraded
      detail
      warnings := if degraded then detail :: parsed.warnings else parsed.warnings
      metadataByLine := byLine (·.container) lines
      containerIdsByLine := byLine (·.containerIds) lines
      sourceIdsByLine := byLine (fun line => [','].intercalate line.sourceIds) lines
      metadataStatusByLine := byLine (·.container.metadataStatus) lines }

end

end Wudup
